/-
  A 32-bit generation counter that skips zero.

  Slot tables hand out handles that carry the slot's generation and advance the
  generation when the slot is given up. Zero is never a generation: an increment
  that wraps goes to one. The counter therefore runs through the `2 ^ 32 - 1` nonzero
  words in a cycle (`genAfter_toNat`), and a word comes back after exactly that many
  steps and not before (`genAfter_eq_iff`, `genAfter_ne_self`).
-/
import Mathlib.Data.Nat.ModEq

namespace ArgusOs.Lib

/-- Number of nonzero 32-bit words: the period of the counter. -/
def genPeriod : Nat := 2 ^ 32 - 1

/-- One increment, with zero skipped. -/
def nextGen (g : UInt32) : UInt32 := if g + 1 = 0 then 1 else g + 1

/-- `n` increments. -/
def genAfter (g : UInt32) : Nat → UInt32
  | 0 => g
  | n + 1 => nextGen (genAfter g n)

theorem nextGen_ne_zero (g : UInt32) : nextGen g ≠ 0 := by
  unfold nextGen
  split
  · decide
  · assumption

theorem nextGen_toNat (g : UInt32) (hg : g ≠ 0) : (nextGen g).toNat = g.toNat % genPeriod + 1 := by
  have hpos : g.toNat ≠ 0 := fun h => hg (UInt32.toNat_inj.mp h)
  have hlt := g.toNat_lt
  have hsum : (g + 1).toNat = (g.toNat + 1) % 2 ^ 32 := by
    rw [UInt32.toNat_add]
    rfl
  unfold nextGen genPeriod
  split
  · next h =>
    have h0 : (g.toNat + 1) % 2 ^ 32 = 0 := by
      rw [← hsum, h]
      rfl
    have : g.toNat = 2 ^ 32 - 1 := by omega
    rw [this]
    rfl
  · next h =>
    have h0 : (g.toNat + 1) % 2 ^ 32 ≠ 0 := by
      rw [← hsum]
      exact fun hc => h (UInt32.toNat_inj.mp hc)
    rw [hsum]
    omega

variable {g : UInt32}

theorem genAfter_ne_zero (hg : g ≠ 0) (n : Nat) : genAfter g n ≠ 0 := by
  cases n with
  | zero => exact hg
  | succ n => exact nextGen_ne_zero _

/-- The closed form: a step in the cycle of nonzero words. -/
theorem genAfter_toNat (hg : g ≠ 0) (n : Nat) :
    (genAfter g n).toNat = (g.toNat - 1 + n) % genPeriod + 1 := by
  have hpos : g.toNat ≠ 0 := fun h => hg (UInt32.toNat_inj.mp h)
  induction n with
  | zero =>
    have := g.toNat_lt
    unfold genPeriod
    simp only [genAfter]
    omega
  | succ n ih =>
    rw [genAfter, nextGen_toNat _ (genAfter_ne_zero hg n), ih]
    unfold genPeriod
    omega

theorem genAfter_add (g : UInt32) (m n : Nat) : genAfter g (m + n) = genAfter (genAfter g m) n := by
  induction n with
  | zero => rfl
  | succ n ih => rw [← Nat.add_assoc, genAfter, ih, genAfter]

/-- Two counters meet exactly when their distances agree modulo the period. -/
theorem genAfter_eq_iff {g' : UInt32} (hg : g ≠ 0) (hg' : g' ≠ 0) (m n : Nat) :
    genAfter g m = genAfter g' n ↔ g.toNat + m ≡ g'.toNat + n [MOD genPeriod] := by
  have hpos : g.toNat ≠ 0 := fun h => hg (UInt32.toNat_inj.mp h)
  have hpos' : g'.toNat ≠ 0 := fun h => hg' (UInt32.toNat_inj.mp h)
  rw [← UInt32.toNat_inj, genAfter_toNat hg, genAfter_toNat hg']
  unfold Nat.ModEq genPeriod
  omega

/-- Before a full cycle the counter is away from where it started. -/
theorem genAfter_ne_self (hg : g ≠ 0) {n : Nat} (h0 : 0 < n) (hn : n < genPeriod) :
    genAfter g n ≠ g := by
  intro h
  have h' : genAfter g n = genAfter g 0 := h
  rw [genAfter_eq_iff hg hg] at h'
  unfold Nat.ModEq genPeriod at h'
  unfold genPeriod at hn
  omega

end ArgusOs.Lib
