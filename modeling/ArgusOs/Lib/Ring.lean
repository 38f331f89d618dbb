/-
  Ring buffers: `cap` cells, a write position `head`, a read position `tail` and the
  number of cells in use. Positions are `Fin cap`, so that stepping one past the last
  cell comes back to the first, as `(x + 1) % cap` does.

  `ringContents` is the queue a ring stands for, oldest first. Storing at `head` appends
  (`ringContents_push`) and stepping `tail` drops the oldest (`ringContents_pop`).
-/
import Mathlib.Data.Fin.Basic
import Mathlib.Tactic.Ring

namespace ArgusOs.Lib

-- the sizes of rings and tables: the numerals of these types have one instance in every module
instance (priority := 2000) neZero_3 : NeZero 3 := ⟨by decide⟩
instance (priority := 2000) neZero_8 : NeZero 8 := ⟨by decide⟩
instance (priority := 2000) neZero_32 : NeZero 32 := ⟨by decide⟩

variable {cap : Nat} [NeZero cap] {α : Type}

/-- The cell `i` places after `tail`. -/
def ringIndex (tail : Fin cap) (i : Nat) : Fin cap := tail + Fin.ofNat cap i

variable (cells : Fin cap → α) (tail : Fin cap)

/-- The `count` cells from `tail` on, oldest first. -/
def ringContents (count : Nat) : List α :=
  (List.range count).map fun i => cells (ringIndex tail i)

theorem ringIndex_zero : ringIndex tail 0 = tail := by
  simp [ringIndex]

theorem ringIndex_val (i : Nat) : (ringIndex tail i).val = (tail.val + i) % cap := by
  simp [ringIndex, Fin.val_add]

theorem ringIndex_succ (i : Nat) : ringIndex tail (i + 1) = ringIndex (tail + 1) i := by
  apply Fin.val_injective
  rw [ringIndex_val, ringIndex_val, Fin.val_add, Fin.val_one', Nat.mod_add_mod,
    Nat.add_right_comm, Nat.add_mod_mod, Nat.add_assoc]

/-- Cells closer together than the capacity are different cells. -/
theorem ringIndex_ne {i j : Nat} (hij : i < j) (hj : j < cap) :
    ringIndex tail i ≠ ringIndex tail j := by
  intro h
  have hv := congrArg Fin.val h
  rw [ringIndex_val, ringIndex_val] at hv
  have ht := tail.isLt
  have e1 := Nat.div_add_mod (tail.val + i) cap
  have e2 := Nat.div_add_mod (tail.val + j) cap
  have hq : (tail.val + i) / cap ≤ (tail.val + j) / cap := Nat.div_le_div_right (by omega)
  rcases Nat.eq_or_lt_of_le hq with hq | hq
  · rw [hq] at e1
    omega
  · have hm : cap * ((tail.val + i) / cap + 1) ≤ cap * ((tail.val + j) / cap) :=
      Nat.mul_le_mul_left _ hq
    rw [Nat.mul_succ] at hm
    omega

@[simp] theorem ringContents_length (count : Nat) :
    (ringContents cells tail count).length = count := by
  simp [ringContents]

theorem ringContents_zero : ringContents cells tail 0 = [] := rfl

theorem ringContents_push {count : Nat} (hc : count < cap) (v : α) :
    ringContents (Function.update cells (ringIndex tail count) v) tail (count + 1) =
      ringContents cells tail count ++ [v] := by
  unfold ringContents
  rw [List.range_succ, List.map_append]
  congr 1
  · apply List.map_congr_left
    intro i hi
    exact Function.update_of_ne (ringIndex_ne tail (List.mem_range.mp hi) hc) ..
  · simp

theorem ringContents_pop (count : Nat) :
    ringContents cells tail (count + 1) = cells tail :: ringContents cells (tail + 1) count := by
  unfold ringContents
  rw [List.range_succ_eq_map, List.map_cons, List.map_map, ringIndex_zero]
  congr 1
  apply List.map_congr_left
  intro i _
  exact congrArg cells (ringIndex_succ tail i)

theorem ringIndex_push (count : Nat) : ringIndex tail count + 1 = ringIndex tail (count + 1) := by
  apply Fin.val_injective
  rw [Fin.val_add, ringIndex_val, ringIndex_val, Fin.val_one', ← Nat.add_mod, Nat.add_assoc]

end ArgusOs.Lib
