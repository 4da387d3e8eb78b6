import Mathlib.Data.List.Pairwise
import Mathlib.Order.Lattice

/-! Items that move a mark forward: each is kept if its key is above the
mark, which it then becomes. -/

set_option autoImplicit false

namespace Foundation

section Ratchet

variable {α κ : Type} [LinearOrder κ] (key : α → κ)

/-- The items that find the mark below their key. -/
def ratchet : κ → List α → List α
  | _, [] => []
  | mark, item :: rest =>
    if mark < key item then item :: ratchet (key item) rest else ratchet mark rest

variable {key}

theorem ratchet_kept {mark : κ} {item : α} (above : mark < key item) (rest : List α) :
    ratchet key mark (item :: rest) = item :: ratchet key (key item) rest := if_pos above

theorem ratchet_dropped {mark : κ} {item : α} (below : key item ≤ mark) (rest : List α) :
    ratchet key mark (item :: rest) = ratchet key mark rest := if_neg (not_lt.mpr below)

theorem ratchet_sublist (mark : κ) (items : List α) : (ratchet key mark items).Sublist items := by
  induction items generalizing mark with
  | nil => exact .slnil
  | cons item rest ih =>
    by_cases above : mark < key item
    · rw [ratchet_kept above]
      exact (ih _).cons_cons item
    · rw [ratchet_dropped (not_lt.mp above)]
      exact (ih _).cons item

theorem ratchet_above {mark : κ} {items : List α} :
    ∀ item ∈ ratchet key mark items, mark < key item := by
  induction items generalizing mark with
  | nil => simp [ratchet]
  | cons first rest ih =>
    intro item kept
    by_cases above : mark < key first
    · rw [ratchet_kept above] at kept
      rcases List.mem_cons.mp kept with rfl | later
      · exact above
      · exact above.trans (ih item later)
    · rw [ratchet_dropped (not_lt.mp above)] at kept
      exact ih item kept

/-- What is kept has increasing keys. -/
theorem ratchet_increasing (mark : κ) (items : List α) :
    (ratchet key mark items).Pairwise fun first second => key first < key second := by
  induction items generalizing mark with
  | nil => exact .nil
  | cons item rest ih =>
    by_cases above : mark < key item
    · rw [ratchet_kept above]
      exact List.pairwise_cons.mpr ⟨ratchet_above, ih _⟩
    · rw [ratchet_dropped (not_lt.mp above)]
      exact ih _

end Ratchet

end Foundation
