/-
  Items laid out one after the other.

  `place a items` puts the first item at `a` and every other one right behind the one before
  it; `extent` is the room they take together. Where an item lies depends only on what is in
  front of it, so replacing a part of the list by another of the same extent moves nothing
  else (`place_append`), and two items never overlap (`place_disjoint`).
-/
import Mathlib

namespace ArgusOs.Lib

variable {α : Type} (width : α → Nat)

/-- The room items take together. -/
def extent (items : List α) : Nat := (items.map width).sum

/-- Every item with its position. -/
def place : Nat → List α → List (Nat × α)
  | _, [] => []
  | a, item :: rest => (a, item) :: place (a + width item) rest

@[simp] theorem extent_nil : extent width [] = 0 := rfl

@[simp] theorem extent_cons (item : α) (rest : List α) :
    extent width (item :: rest) = width item + extent width rest := by simp [extent]

@[simp] theorem extent_append (xs ys : List α) :
    extent width (xs ++ ys) = extent width xs + extent width ys := by simp [extent]

@[simp] theorem place_nil (a : Nat) : place width a [] = [] := rfl

@[simp] theorem place_cons (a : Nat) (item : α) (rest : List α) :
    place width a (item :: rest) = (a, item) :: place width (a + width item) rest := rfl

theorem place_append (a : Nat) (xs ys : List α) :
    place width a (xs ++ ys) = place width a xs ++ place width (a + extent width xs) ys := by
  induction xs generalizing a with
  | nil => simp
  | cons x xs ih => simp [ih, Nat.add_assoc]

variable {width}

variable {a : Nat} {items : List α} {e : Nat × α}

theorem place_bounds (h : e ∈ place width a items) :
    a ≤ e.1 ∧ e.1 + width e.2 ≤ a + extent width items := by
  induction items generalizing a with
  | nil => simp at h
  | cons x xs ih =>
    rw [place_cons, List.mem_cons] at h
    rw [extent_cons]
    rcases h with rfl | h
    · exact ⟨Nat.le_refl _, by dsimp only; omega⟩
    · have := ih h
      omega

/-- An item is placed where what is in front of it ends. -/
theorem mem_place_iff :
    e ∈ place width a items ↔
      ∃ front rest, items = front ++ e.2 :: rest ∧ e.1 = a + extent width front := by
  constructor
  · induction items generalizing a with
    | nil => simp
    | cons x xs ih =>
      intro h
      rw [place_cons, List.mem_cons] at h
      rcases h with rfl | h
      · exact ⟨[], xs, rfl, rfl⟩
      · obtain ⟨front, rest, hxs, he⟩ := ih h
        refine ⟨x :: front, rest, by rw [hxs]; rfl, ?_⟩
        rw [he, extent_cons, Nat.add_assoc]
  · rintro ⟨front, rest, rfl, he⟩
    rw [place_append, place_cons, ← he]
    exact List.mem_append_right _ (List.mem_cons_self ..)

/-- Two items at different positions do not overlap. -/
theorem place_disjoint {f : Nat × α} (he : e ∈ place width a items)
    (hf : f ∈ place width a items) (hne : e.1 ≠ f.1) :
    e.1 + width e.2 ≤ f.1 ∨ f.1 + width f.2 ≤ e.1 := by
  induction items generalizing a with
  | nil => simp at he
  | cons x xs ih =>
    rw [place_cons, List.mem_cons] at he hf
    rcases he with rfl | he
    · rcases hf with rfl | hf
      · exact absurd rfl hne
      · exact Or.inl (place_bounds hf).1
    · rcases hf with rfl | hf
      · exact Or.inr (place_bounds he).1
      · exact ih he hf

theorem place_unique (hpos : ∀ x, 0 < width x) {f : Nat × α} (he : e ∈ place width a items)
    (hf : f ∈ place width a items) (heq : e.1 = f.1) : e = f := by
  induction items generalizing a with
  | nil => simp at he
  | cons x xs ih =>
    have hx := hpos x
    rw [place_cons, List.mem_cons] at he hf
    rcases he with rfl | he
    · rcases hf with rfl | hf
      · rfl
      · have := (place_bounds hf).1
        dsimp only at heq
        omega
    · rcases hf with rfl | hf
      · have := (place_bounds he).1
        dsimp only at heq
        omega
      · exact ih he hf

/-- An item stays where it is when another one is replaced by items that take its room. -/
theorem mem_place_replace {xs ys items' : List α}
    (hextent : extent width items' = extent width items)
    (he : e ∈ place width a (xs ++ (items ++ ys)))
    (hne : e ∉ place width (a + extent width xs) items) :
    e ∈ place width a (xs ++ (items' ++ ys)) := by
  simp only [place_append, List.mem_append, hextent] at he ⊢
  rcases he with he | he | he
  · exact Or.inl he
  · exact absurd he hne
  · exact Or.inr (Or.inr he)

end ArgusOs.Lib
