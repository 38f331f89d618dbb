/-
  Fixed tables `Fin n → α` and the first slot that meets a test, as the loops
  `for (slot = 0; slot < N; ++slot) if (...) ...` of a C program find it.
-/
import Mathlib.Data.Set.Card

namespace ArgusOs.Lib

variable {n : Nat} {α : Type}

/-- The lowest slot at which `p` holds. -/
def firstSlot (p : Fin n → Bool) : Option (Fin n) := (List.finRange n).find? p

theorem firstSlot_eq_none (p : Fin n → Bool) : firstSlot p = none ↔ ∀ i, p i = false := by
  simp [firstSlot]

variable {p : Fin n → Bool} {i : Fin n}

theorem firstSlot_true (h : firstSlot p = some i) : p i = true := List.find?_some h

theorem firstSlot_isSome (h : p i = true) : ∃ j, firstSlot p = some j := by
  cases hj : firstSlot p with
  | none =>
    have := (firstSlot_eq_none p).mp hj i
    rw [h] at this
    cases this
  | some j => exact ⟨j, rfl⟩

theorem firstSlot_congr {q : Fin n → Bool} (h : ∀ i, p i = q i) : firstSlot p = firstSlot q := by
  rw [funext h]

/-! ## Counting the slots that meet a test -/

/-- How many slots meet `p`. -/
def slotCount (p : Fin n → Bool) : Nat := (Finset.univ.filter fun i => p i = true).card

theorem slotCount_congr {q : Fin n → Bool} (h : ∀ i, p i = q i) : slotCount p = slotCount q := by
  rw [funext h]

theorem slotCount_le (p : Fin n → Bool) : slotCount p ≤ n := by
  have := Finset.card_filter_le (Finset.univ : Finset (Fin n)) fun i => p i = true
  simpa [slotCount] using this

theorem exists_false_of_slotCount_lt (h : slotCount p < n) : ∃ i, p i = false := by
  by_contra hc
  have hall : ∀ i, p i = true := by
    intro i
    by_contra hi
    exact hc ⟨i, by simpa using hi⟩
  have : slotCount p = n := by simp [slotCount, hall]
  omega

theorem slotCount_of_update {q : Fin n → Bool} (hp : p i = false) (hq : q i = true)
    (h : ∀ j, j ≠ i → q j = p j) : slotCount q = slotCount p + 1 := by
  have hins : (Finset.univ.filter fun j => q j = true) =
      insert i (Finset.univ.filter fun j => p j = true) := by
    ext j
    by_cases hj : j = i
    · simp [hj, hq]
    · simp [hj, h j hj]
  unfold slotCount
  rw [hins, Finset.card_insert_of_notMem]
  simp [hp]

/-- If different slots of `p` go to different slots of `q` and `q` has no more, all of `q` is
    reached. -/
theorem exists_of_slotCount_le {q : Fin n → Bool} {f : Fin n → Fin n}
    (hcount : slotCount q ≤ slotCount p) (hmaps : ∀ i, p i = true → q (f i) = true)
    (hinj : ∀ i j, p i = true → p j = true → f i = f j → i = j) (hi : q i = true) :
    ∃ j, p j = true ∧ f j = i := by
  have hmem : ∀ j ∈ Finset.univ.filter fun j => p j = true, p j = true :=
    fun j hj => (Finset.mem_filter.mp hj).2
  obtain ⟨j, hj, rfl⟩ := Finset.surj_on_of_inj_on_of_card_le (fun j _ => f j)
    (fun j hj => Finset.mem_filter.mpr ⟨Finset.mem_univ _, hmaps j (hmem j hj)⟩)
    (fun j l hj hl => hinj j l (hmem j hj) (hmem l hl)) hcount i
    (Finset.mem_filter.mpr ⟨Finset.mem_univ _, hi⟩)
  exact ⟨j, hmem j hj, rfl⟩

/-! ## Lists held in the slots of a table -/

/-- What all slots hold. -/
def gather (f : Fin n → List α) : List α := (List.finRange n).flatMap f

/-- What the slots other than `i` hold. -/
def gatherOthers (i : Fin n) (f : Fin n → List α) : List α := ((List.finRange n).erase i).flatMap f

variable {f : Fin n → List α}

theorem mem_gather {a : α} (h : a ∈ f i) : a ∈ gather f :=
  List.mem_flatMap.mpr ⟨i, List.mem_finRange i, h⟩

theorem mem_gatherOthers {j : Fin n} (hne : j ≠ i) {a : α} (h : a ∈ f j) : a ∈ gatherOthers i f :=
  List.mem_flatMap.mpr ⟨j, (List.mem_erase_of_ne hne).mpr (List.mem_finRange j), h⟩

theorem gather_perm (f : Fin n → List α) (i : Fin n) : (gather f).Perm (f i ++ gatherOthers i f) :=
  (List.perm_cons_erase (List.mem_finRange i)).flatMap_right f

theorem gatherOthers_congr {g : Fin n → List α} (h : ∀ j, j ≠ i → g j = f j) :
    gatherOthers i g = gatherOthers i f := by
  apply List.flatMap_congr
  intro j hj
  exact h j ((List.nodup_finRange n).mem_erase_iff.mp hj).1

/-- When nothing is held twice, different slots hold different things. -/
theorem gather_apart (h : (gather f).Nodup) {j : Fin n} (hne : i ≠ j) {a : α} (hi : a ∈ f i) :
    a ∉ f j := by
  intro hj
  have hnodup := (gather_perm f j).nodup_iff.mp h
  exact (List.nodup_append.mp hnodup).2.2 a hj a (mem_gatherOthers hne hi) rfl

/-! ## Counting numbers below a bound -/

/-- How many numbers below `n` meet `p`. -/
def countBelow (p : Nat → Bool) (n : Nat) : Nat := (List.range n).countP p

theorem countBelow_congr {p q : Nat → Bool} (h : ∀ i, i < n → p i = q i) :
    countBelow p n = countBelow q n := by
  unfold countBelow
  apply List.countP_congr
  intro i hi
  rw [h i (List.mem_range.mp hi)]

theorem countBelow_eq_zero {p : Nat → Bool} (h : ∀ i, i < n → p i = false) :
    countBelow p n = 0 := by
  unfold countBelow
  rw [List.countP_eq_zero]
  intro i hi
  rw [h i (List.mem_range.mp hi)]
  exact Bool.false_ne_true

/-- The count is the size of the set. -/
theorem countBelow_eq_ncard (p : Nat → Bool) (n : Nat) :
    countBelow p n = {i | i < n ∧ p i = true}.ncard := by
  have hset : {i | i < n ∧ p i = true} = ((List.range n).filter p).toFinset := by
    ext i
    simp
  rw [hset, Set.ncard_coe_finset, List.toFinset_card_of_nodup (List.nodup_range.filter p),
    countBelow, List.countP_eq_length_filter]

/-- A whole run of numbers comes to meet the test. -/
theorem countBelow_run {p q : Nat → Bool} {start count : Nat} (hle : start + count ≤ n)
    (hin : ∀ i, start ≤ i → i < start + count → p i = false ∧ q i = true)
    (hout : ∀ i, ¬ (start ≤ i ∧ i < start + count) → q i = p i) :
    countBelow q n = countBelow p n + count := by
  have hsplit : List.range n =
      List.range' 0 start ++ (List.range' start count ++ List.range' (start + count)
        (n - (start + count))) := by
    rw [List.range'_append_1, List.range_eq_range']
    have := List.range'_append_1 (s := 0) (m := start) (n := count + (n - (start + count)))
    rw [Nat.zero_add] at this
    rw [this]
    congr 1
    omega
  have hsame : ∀ s m, (∀ i, s ≤ i → i < s + m → ¬ (start ≤ i ∧ i < start + count)) →
      (List.range' s m).countP q = (List.range' s m).countP p := by
    intro s m hdis
    apply List.countP_congr
    intro i hi
    rw [List.mem_range'_1] at hi
    rw [hout i (hdis i hi.1 hi.2)]
  have hq : (List.range' start count).countP q = count := by
    rw [List.countP_eq_length.mpr, List.length_range']
    intro i hi
    rw [List.mem_range'_1] at hi
    exact (hin i hi.1 hi.2).2
  have hp : (List.range' start count).countP p = 0 := by
    rw [List.countP_eq_zero]
    intro i hi
    rw [List.mem_range'_1] at hi
    rw [(hin i hi.1 hi.2).1]
    exact Bool.false_ne_true
  unfold countBelow
  rw [hsplit, List.countP_append, List.countP_append, List.countP_append, List.countP_append, hq,
    hp, hsame 0 start (by omega), hsame _ _ (by omega)]
  omega

end ArgusOs.Lib
