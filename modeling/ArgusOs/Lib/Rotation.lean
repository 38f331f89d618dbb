/-
  Round robin.

  `n` positions stand in a circle. A pick takes the first position from a cursor on that is
  eligible, and the next cursor is the position behind it. What is eligible may change from pick
  to pick; a position that stays eligible comes closer to the cursor with every pick of another
  one, so that it is picked within `n` picks.
-/
import Mathlib.Data.Nat.Basic

namespace ArgusOs.Lib

/-- How many positions `p` is ahead of the cursor `c`. -/
def ahead (n c p : Nat) : Nat := if c % n ≤ p then p - c % n else p + n - c % n

theorem wrap_eq {n c d : Nat} (hd : d < n) :
    (c + d) % n = if c % n + d < n then c % n + d else c % n + d - n := by
  have hc : c % n < n := Nat.mod_lt c (by omega)
  rw [← Nat.mod_add_mod]
  split
  · next h => exact Nat.mod_eq_of_lt h
  · next h => rw [Nat.mod_eq_sub_mod (by omega), Nat.mod_eq_of_lt (by omega)]

theorem ahead_lt {n p : Nat} (hp : p < n) (c : Nat) : ahead n c p < n := by
  have hc : c % n < n := Nat.mod_lt c (by omega)
  unfold ahead
  split <;> omega

theorem at_ahead {n p : Nat} (hp : p < n) (c : Nat) : (c + ahead n c p) % n = p := by
  have hc : c % n < n := Nat.mod_lt c (by omega)
  rw [wrap_eq (ahead_lt hp c)]
  unfold ahead
  split
  · split <;> omega
  · split <;> omega

theorem ahead_eq {n d : Nat} (hd : d < n) (c : Nat) : ahead n c ((c + d) % n) = d := by
  have hc : c % n < n := Nat.mod_lt c (by omega)
  rw [wrap_eq hd]
  unfold ahead
  split
  · split <;> omega
  · split <;> omega

/-- The first eligible position from the cursor on. -/
structure Picks (n : Nat) (eligible : Nat → Prop) (c i : Nat) : Prop where
  inside : i < n
  able : eligible i
  first : ∀ d < ahead n c i, ¬ eligible ((c + d) % n)

/-- Behind a pick of another position, an eligible one is closer. -/
theorem Picks.closer {n c i p : Nat} {eligible : Nat → Prop} (h : Picks n eligible c i) (hp : p < n)
    (he : eligible p) (hne : i ≠ p) : ahead n ((i + 1) % n) p < ahead n c p := by
  have hbefore : ahead n c i < ahead n c p := by
    rw [← Nat.not_le]
    intro hle
    rcases Nat.lt_or_eq_of_le hle with hlt | heq
    · refine h.first _ hlt ?_
      rwa [at_ahead hp]
    · apply hne
      rw [← at_ahead h.inside c, ← at_ahead hp c, heq]
  have hi := h.inside
  have hc : c % n < n := Nat.mod_lt c (by omega)
  have hnext : (i + 1) % n % n = if i + 1 < n then i + 1 else 0 := by
    rw [Nat.mod_mod]
    split
    · next hlt => exact Nat.mod_eq_of_lt hlt
    · next hlast =>
      obtain rfl : n = i + 1 := by omega
      exact Nat.mod_self _
  unfold ahead at hbefore ⊢
  rw [hnext]
  split at hbefore <;> split at hbefore <;> split <;> split <;> omega

/-- Picks one after the other, each with what was eligible then. -/
inductive Rounds (n : Nat) : Nat → List ((Nat → Prop) × Nat) → Prop
  | nil (c : Nat) : Rounds n c []
  | cons {c i : Nat} {eligible : Nat → Prop} {rest : List ((Nat → Prop) × Nat)}
    (h : Picks n eligible c i) (hrest : Rounds n ((i + 1) % n) rest) :
    Rounds n c ((eligible, i) :: rest)

/-- What stays eligible is picked before more rounds are over than it was ahead. -/
theorem Rounds.picked {n c p : Nat} {rounds : List ((Nat → Prop) × Nat)} (h : Rounds n c rounds)
    (hp : p < n) (he : ∀ r ∈ rounds, r.1 p) (hlen : ahead n c p < rounds.length) :
    ∃ r ∈ rounds, r.2 = p := by
  induction h with
  | nil => exact absurd hlen (Nat.not_lt_zero _)
  | @cons c i eligible rest h hrest ih =>
    rw [List.forall_mem_cons] at he
    by_cases hi : i = p
    · exact ⟨_, List.mem_cons_self, hi⟩
    · have hcloser := h.closer hp he.1 hi
      rw [List.length_cons] at hlen
      obtain ⟨r, hr, hrp⟩ := ih he.2 (by omega)
      exact ⟨r, List.mem_cons_of_mem _ hr, hrp⟩

/-- Every pick begins behind the one before. -/
theorem Rounds.next {n c i j : Nat} {eligible eligible' : Nat → Prop}
    {before after : List ((Nat → Prop) × Nat)}
    (h : Rounds n c (before ++ (eligible, i) :: (eligible', j) :: after)) :
    Picks n eligible' ((i + 1) % n) j := by
  induction before generalizing c with
  | nil =>
    cases h with
    | cons _ hrest =>
      cases hrest with
      | cons hpick _ => exact hpick
  | cons first before ih =>
    cases h with
    | cons _ hrest => exact ih hrest

end ArgusOs.Lib
