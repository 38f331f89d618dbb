/-
  Refreshing a copy piece by piece, and the loops over a grid that do it.

  `view` is what should be seen at every point and `shown` is what is seen. They may differ at
  the points known to be `stale` and nowhere else (`Current`). A change of the view keeps that
  if it makes every point stale where the view changed (`Current.change`); showing every stale
  point anew leaves none (`Current.refresh`).

  `sweep` is the pair of nested loops that visits a grid row by row, with the two ways its
  effect is reasoned about: what every turn keeps (`sweep_invariant`), and what one turn
  establishes and no other turn destroys (`sweep_establishes`).
-/
import Mathlib

namespace ArgusOs.Lib

section Current

variable {P V : Type} {domain stale stale' : Set P} {view view' shown shown' : P → V}

/-- On the domain, what is shown is the view except at stale points. -/
def Current (domain stale : Set P) (view shown : P → V) : Prop :=
  ∀ p ∈ domain, p ∉ stale → shown p = view p

/-- Everything may be stale. -/
theorem Current.of_all_stale (h : domain ⊆ stale) : Current domain stale view shown := by
  intro p hp hfresh
  exact absurd (h hp) hfresh

theorem Current.change (h : Current domain stale view shown)
    (hkeep : ∀ p ∈ domain, p ∉ stale' → p ∉ stale ∧ view' p = view p) :
    Current domain stale' view' shown := by
  intro p hp hfresh
  obtain ⟨hold, hview⟩ := hkeep p hp hfresh
  rw [hview, h p hp hold]

theorem Current.refresh (h : Current domain stale view shown)
    (hnew : ∀ p ∈ domain, shown' p = view p ∨ p ∉ stale ∧ shown' p = shown p) :
    Current domain ∅ view shown' := by
  intro p hp _
  rcases hnew p hp with hview | ⟨hfresh, hsame⟩
  · exact hview
  · rw [hsame, h p hp hfresh]

theorem Current.shown_eq (h : Current domain ∅ view shown) {p : P} (hp : p ∈ domain) :
    shown p = view p := h p hp (Set.notMem_empty p)

end Current

section Sweep

variable {β : Type} {rows columns : Nat} {turn : Nat → Nat → β → β}

/-- `for (j = 0; j < rows; ++j) for (i = 0; i < columns; ++i)`. -/
def sweep (rows columns : Nat) (turn : Nat → Nat → β → β) (b : β) : β :=
  (List.range rows).foldl (fun b j => (List.range columns).foldl (fun b i => turn j i b) b) b

theorem foldl_range_invariant (good : β → Prop) {n : Nat} {f : Nat → β → β} {b : β}
    (h0 : good b) (hstep : ∀ i < n, ∀ b, good b → good (f i b)) :
    good ((List.range n).foldl (fun b i => f i b) b) := by
  induction n with
  | zero => exact h0
  | succ n ih =>
    rw [List.range_succ, List.foldl_append]
    exact hstep n (Nat.lt_succ_self n) _ (ih fun i hi => hstep i (Nat.lt_succ_of_lt hi))

theorem foldl_range_establishes (done : β → Prop) {n k : Nat} {f : Nat → β → β} (b : β)
    (hk : k < n) (hdone : ∀ b, done (f k b)) (hkeep : ∀ i < n, ∀ b, done b → done (f i b)) :
    done ((List.range n).foldl (fun b i => f i b) b) := by
  induction n with
  | zero => omega
  | succ n ih =>
    rw [List.range_succ, List.foldl_append]
    by_cases hlast : k = n
    · subst hlast
      exact hdone _
    · exact hkeep n (Nat.lt_succ_self n) _
        (ih (by omega) fun i hi => hkeep i (Nat.lt_succ_of_lt hi))

/-- What every turn keeps holds after the loops. -/
theorem sweep_invariant (good : β → Prop) {b : β} (h0 : good b)
    (hturn : ∀ j < rows, ∀ i < columns, ∀ b, good b → good (turn j i b)) :
    good (sweep rows columns turn b) :=
  foldl_range_invariant (f := fun j b => (List.range columns).foldl (fun b i => turn j i b) b)
    good h0 fun j hj _ hb => foldl_range_invariant good hb (hturn j hj)

/-- What one turn establishes and no turn destroys holds after the loops. -/
theorem sweep_establishes (done : β → Prop) (b : β) {j i : Nat} (hj : j < rows) (hi : i < columns)
    (hdone : ∀ b, done (turn j i b))
    (hkeep : ∀ j < rows, ∀ i < columns, ∀ b, done b → done (turn j i b)) :
    done (sweep rows columns turn b) :=
  foldl_range_establishes (f := fun j b => (List.range columns).foldl (fun b i => turn j i b) b)
    done b hj
    (fun b => foldl_range_establishes done b hi hdone (hkeep j hj))
    fun j hj _ hb => foldl_range_invariant done hb (hkeep j hj)

/-- Two cells of a grid of `width` columns that are stored at one position are one cell. -/
theorem grid_position_inj {width a b c d : Nat} (hb : b < width) (hd : d < width)
    (h : a * width + b = c * width + d) : a = c ∧ b = d := by
  have hmod : ∀ u v, v < width → (u * width + v) % width = v := fun u v hv => by
    rw [Nat.add_comm, Nat.add_mul_mod_self_right, Nat.mod_eq_of_lt hv]
  have hbd : b = d := by rw [← hmod a b hb, h, hmod c d hd]
  subst hbd
  have hpos : 0 < width := by omega
  exact ⟨Nat.eq_of_mul_eq_mul_right hpos (by omega), rfl⟩

end Sweep

end ArgusOs.Lib
