/-
  Painting a block of a grid, cell by cell and in order.

  The rules for `sweep` in `Refresh` do not say which turn comes first. Where a turn reads what
  earlier turns may have overwritten, as in a copy between overlapping blocks, the order
  matters: `sweep_progress` carries a statement that knows how far the loops have come.
  `sweep_painted` is the case needed for blocks of cells: if every turn stores the new value of
  its own cell, given that the cells visited before show theirs and the others are untouched,
  then the loops replace the block and nothing else.
-/
import ArgusOs.Lib.Refresh

namespace ArgusOs.Lib

section Progress

variable {β : Type} {rows columns : Nat} {turn : Nat → Nat → β → β}

theorem foldl_range_progress (good : Nat → β → Prop) {n : Nat} {f : Nat → β → β} {b : β}
    (h0 : good 0 b) (hstep : ∀ i < n, ∀ b, good i b → good (i + 1) (f i b)) :
    good n ((List.range n).foldl (fun b i => f i b) b) := by
  induction n with
  | zero => exact h0
  | succ n ih =>
    rw [List.range_succ, List.foldl_append]
    exact hstep n (Nat.lt_succ_self n) _ (ih fun i hi => hstep i (Nat.lt_succ_of_lt hi))

/-- `good j i` is what holds before column `i` of row `j` is visited. -/
theorem sweep_progress (good : Nat → Nat → β → Prop) {b : β} (h0 : good 0 0 b)
    (hturn : ∀ j < rows, ∀ i < columns, ∀ b, good j i b → good j (i + 1) (turn j i b))
    (hrow : ∀ j < rows, ∀ b, good j columns b → good (j + 1) 0 b) :
    good rows 0 (sweep rows columns turn b) := by
  apply foldl_range_progress (fun j b => good j 0 b) h0
  intro j hj b hb
  apply hrow j hj
  exact foldl_range_progress (good j) hb (hturn j hj)

end Progress

/-- A store into rows of `stride` values changes one cell. -/
theorem update_cell {V : Type} {stride c x : Nat} (hc : c < stride) (hx : x < stride)
    (buffer : Nat → V) (r y : Nat) (v : V) :
    Function.update buffer (y * stride + x) v (r * stride + c) =
      if c = x ∧ r = y then v else buffer (r * stride + c) := by
  by_cases hcell : c = x ∧ r = y
  · rw [if_pos hcell, hcell.1, hcell.2, Function.update_self]
  · rw [if_neg hcell, Function.update_of_ne]
    intro heq
    obtain ⟨hr, hc⟩ := grid_position_inj hc hx heq
    exact hcell ⟨hc, hr⟩

section Painted

variable {β V : Type} {cells : β → Nat → Nat → V} {bound x y width rows : Nat}
  {new old : Nat → Nat → V} {keep : β → Prop}

/-- The first `j` rows of a block with its corner at `(x, y)` and the first `i` cells of the next
    row show the new values; every other cell shows the old one. The grid has `bound` columns. -/
def Painted (cells : β → Nat → Nat → V) (bound x y width : Nat) (new old : Nat → Nat → V)
    (j i : Nat) (b : β) : Prop :=
  ∀ c < bound, ∀ r, cells b c r =
    if (x ≤ c ∧ c < x + width) ∧ y ≤ r ∧ (r < y + j ∨ r = y + j ∧ c < x + i) then new c r
    else old c r

/-- The rows below the one that is being painted are untouched. -/
theorem Painted.below {j i : Nat} {b : β} (h : Painted cells bound x y width new old j i b)
    {c r : Nat} (hc : c < bound) (hr : y + j < r) : cells b c r = old c r := by
  rw [h c hc r, if_neg (by omega)]

theorem Painted.stored {j i : Nat} (hi : i < width) {b b' : β}
    (h : Painted cells bound x y width new old j i b)
    (hstore : ∀ c < bound, ∀ r, cells b' c r = if c = x + i ∧ r = y + j then new c r
      else cells b c r) : Painted cells bound x y width new old j (i + 1) b' := by
  intro c hc r
  rw [hstore c hc r, h c hc r]
  split_ifs <;> first | rfl | omega

theorem Painted.row {j : Nat} {b : β} (h : Painted cells bound x y width new old j width b) :
    Painted cells bound x y width new old (j + 1) 0 b := by
  intro c hc r
  rw [h c hc r]
  split_ifs <;> first | rfl | omega

/-- Loops whose turns store the new values of a block cell by cell replace that block. -/
theorem sweep_painted (cells : β → Nat → Nat → V) (new : Nat → Nat → V)
    {turn : Nat → Nat → β → β} {b : β} (h0 : keep b)
    (hturn : ∀ j < rows, ∀ i < width, ∀ b', keep b' →
      Painted cells bound x y width new (cells b) j i b' →
      keep (turn j i b') ∧ ∀ c < bound, ∀ r, cells (turn j i b') c r =
        if c = x + i ∧ r = y + j then new c r else cells b' c r) :
    keep (sweep rows width turn b) ∧ ∀ c < bound, ∀ r, cells (sweep rows width turn b) c r =
      if (x ≤ c ∧ c < x + width) ∧ y ≤ r ∧ r < y + rows then new c r else cells b c r := by
  have hstart : Painted cells bound x y width new (cells b) 0 0 b := by
    intro c _ r
    rw [if_neg (by omega)]
  have hrun : keep (sweep rows width turn b) ∧
      Painted cells bound x y width new (cells b) rows 0 (sweep rows width turn b) := by
    apply sweep_progress
      (fun j i b' => keep b' ∧ Painted cells bound x y width new (cells b) j i b') ⟨h0, hstart⟩
    · intro j hj i hi b' hb'
      obtain ⟨hkeep, hstore⟩ := hturn j hj i hi b' hb'.1 hb'.2
      exact ⟨hkeep, hb'.2.stored hi hstore⟩
    · intro j _ b' hb'
      exact ⟨hb'.1, hb'.2.row⟩
  obtain ⟨hkeep, hall⟩ := hrun
  refine ⟨hkeep, fun c hc r => ?_⟩
  rw [hall c hc r]
  split_ifs <;> first | rfl | omega

end Painted

end ArgusOs.Lib
