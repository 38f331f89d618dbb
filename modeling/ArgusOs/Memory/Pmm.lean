/-
  The physical page allocator: `pmm.c`.

  Two bitmaps with one bit per page (usable, used) and three counters. `pmm_alloc_pages`
  scans all pages once with a run accumulator and takes the first run long enough;
  `pmm_release_pages` checks a whole run before it clears it. Page numbers and counters are
  natural numbers; an address is a 64-bit word, and 0 is the failed allocation.

  Over the model stands the notion the layers above use:

    Held pmm frames     these pages are pairwise distinct, usable and marked used

  An allocation takes the lowest free run, if there is one (`pmmAllocPages_cases`); its pages
  come in front of every held list, and a release takes them off again.
-/
import ArgusOs.Lib.Word
import Mathlib.Data.List.Nodup
import Mathlib.Data.List.Perm.Basic

namespace ArgusOs.Memory

open Lib Function

variable {count n page runLength runStart start : Nat} {free : Nat → Bool} {address : UInt64}
  {frames : List Nat}

def argusPageSize : Nat := 4096

abbrev Bitmap := Nat → UInt8

variable (bitmap : Bitmap)

def bitGet (page : Nat) : Bool :=
  (bitmap (page / 8) >>> UInt8.ofNat (page % 8)) &&& 1 ≠ 0

def bitSet (page : Nat) : Bitmap :=
  update bitmap (page / 8) (bitmap (page / 8) ||| (1 <<< UInt8.ofNat (page % 8)))

def bitClear (page : Nat) : Bitmap :=
  update bitmap (page / 8) (bitmap (page / 8) &&& ~~~(1 <<< UInt8.ofNat (page % 8)))

structure Pmm where
  usableBitmap : Bitmap
  usedBitmap : Bitmap
  pageCount : Nat
  managedCount : Nat
  freeCount : Nat

variable (pmm : Pmm)

def Pmm.isUsable (page : Nat) : Bool := bitGet pmm.usableBitmap page
def Pmm.isUsed (page : Nat) : Bool := bitGet pmm.usedBitmap page
def Pmm.isFree (page : Nat) : Bool := pmm.isUsable page && !pmm.isUsed page

/-- The loop of `pmm_alloc_pages` over the pages `page, page + 1, …`, `left` of them. -/
def allocScan (free : Nat → Bool) (count : Nat) : Nat → Nat → Nat → Nat → Option Nat
  | 0, _, _, _ => none
  | left + 1, page, runStart, runLength =>
    if free page then
      let runStart := if runLength = 0 then page else runStart
      if runLength + 1 = count then some runStart
      else allocScan free count left (page + 1) runStart (runLength + 1)
    else allocScan free count left (page + 1) runStart 0

/-- Mark a run used and count it off. -/
def Pmm.take (start count : Nat) : Pmm :=
  { pmm with
    usedBitmap := (List.range' start count).foldl bitSet pmm.usedBitmap
    freeCount := pmm.freeCount - count }

/-- Mark a run unused and count it back in. -/
def Pmm.give (start count : Nat) : Pmm :=
  { pmm with
    usedBitmap := (List.range' start count).foldl bitClear pmm.usedBitmap
    freeCount := pmm.freeCount + count }

def pmmAllocPages (count : Nat) : Pmm × UInt64 :=
  if count = 0 ∨ count > pmm.freeCount then (pmm, 0)
  else
    match allocScan pmm.isFree count pmm.pageCount 0 0 0 with
    | none => (pmm, 0)
    | some runStart => (pmm.take runStart count, UInt64.ofNat (runStart * argusPageSize))

def pmmAllocPage : Pmm × UInt64 := pmmAllocPages pmm 1

def pmmReleasePages (address : UInt64) (count : Nat) : Pmm × Bool :=
  if address &&& 4095 ≠ 0 then (pmm, false)
  else
    let first := address.toNat / argusPageSize
    if count = 0 ∨ first ≥ pmm.pageCount ∨ count > pmm.pageCount - first then (pmm, false)
    else if (List.range' first count).any fun page => !pmm.isUsable page || !pmm.isUsed page then
      (pmm, false)
    else (pmm.give first count, true)

def pmmFreePage (address : UInt64) : Pmm × Bool := pmmReleasePages pmm address 1

variable {pmm}

/-! ## Bits -/

theorem bitGet_eq_testBit (page : Nat) :
    bitGet bitmap page = (bitmap (page / 8)).toNat.testBit (page % 8) := by
  have h8 : (UInt8.ofNat (page % 8)).toNat % 8 = page % 8 := by
    rw [UInt8.toNat_ofNat']
    omega
  unfold bitGet
  rw [Nat.testBit_eq_decide_div_mod_eq, decide_eq_decide, Ne, ← UInt8.toNat_inj, UInt8.toNat_and,
    UInt8.toNat_shiftRight, h8, Nat.shiftRight_eq_div_pow, UInt8.toNat_one, Nat.and_one_is_mod,
    UInt8.toNat_zero]
  omega

theorem toNat_one_shiftLeft (k : Nat) (hk : k < 8) :
    ((1 : UInt8) <<< UInt8.ofNat k).toNat = 2 ^ k := by
  have h : ∀ i : Fin 8, ((1 : UInt8) <<< UInt8.ofNat i.val).toNat = 2 ^ i.val := by decide
  exact h ⟨k, hk⟩

theorem bitGet_bitSet (page q : Nat) :
    bitGet (bitSet bitmap page) q = (bitGet bitmap q || decide (q = page)) := by
  rw [bitGet_eq_testBit, bitGet_eq_testBit]
  unfold bitSet
  by_cases hb : q / 8 = page / 8
  · rw [hb, update_self, UInt8.toNat_or, toNat_one_shiftLeft _ (Nat.mod_lt _ (by omega)),
      Nat.testBit_or, Nat.testBit_two_pow]
    congr 1
    rw [decide_eq_decide]
    omega
  · have hne : q ≠ page := fun h => hb (by rw [h])
    rw [update_of_ne hb]
    simp [hne]

theorem bitGet_bitClear (page q : Nat) :
    bitGet (bitClear bitmap page) q = (bitGet bitmap q && decide (q ≠ page)) := by
  rw [bitGet_eq_testBit, bitGet_eq_testBit]
  unfold bitClear
  by_cases hb : q / 8 = page / 8
  · have hlt : q % 8 < 8 := Nat.mod_lt _ (by omega)
    have hcomp : (~~~((1 : UInt8) <<< UInt8.ofNat (page % 8))).toNat.testBit (q % 8) =
        decide (q % 8 ≠ page % 8) := by
      have h : ∀ i j : Fin 8, (~~~((1 : UInt8) <<< UInt8.ofNat i.val)).toNat.testBit j.val =
          decide (j.val ≠ i.val) := by decide
      exact h ⟨page % 8, Nat.mod_lt _ (by omega)⟩ ⟨q % 8, hlt⟩
    rw [hb, update_self, UInt8.toNat_and, Nat.testBit_and, hcomp]
    congr 1
    rw [decide_eq_decide]
    omega
  · have hne : q ≠ page := fun h => hb (by rw [h])
    rw [update_of_ne hb]
    simp [hne]

theorem bitGet_foldl_bitSet (pages : List Nat) (bitmap : Bitmap) (q : Nat) :
    bitGet (pages.foldl bitSet bitmap) q = (bitGet bitmap q || decide (q ∈ pages)) := by
  induction pages generalizing bitmap with
  | nil => simp
  | cons page pages ih =>
    rw [List.foldl_cons, ih, bitGet_bitSet]
    simp [Bool.or_assoc]

theorem bitGet_foldl_bitClear (pages : List Nat) (bitmap : Bitmap) (q : Nat) :
    bitGet (pages.foldl bitClear bitmap) q = (bitGet bitmap q && decide (q ∉ pages)) := by
  induction pages generalizing bitmap with
  | nil => simp
  | cons page pages ih =>
    rw [List.foldl_cons, ih, bitGet_bitClear]
    simp [Bool.and_assoc]

/-! ## Runs taken and given -/

section Runs

variable (pmm : Pmm) (start count q : Nat)

@[simp] theorem Pmm.take_isUsable : (pmm.take start count).isUsable q = pmm.isUsable q := rfl
@[simp] theorem Pmm.take_pageCount : (pmm.take start count).pageCount = pmm.pageCount := rfl
@[simp] theorem Pmm.take_freeCount : (pmm.take start count).freeCount = pmm.freeCount - count := rfl
@[simp] theorem Pmm.give_isUsable : (pmm.give start count).isUsable q = pmm.isUsable q := rfl
@[simp] theorem Pmm.give_pageCount : (pmm.give start count).pageCount = pmm.pageCount := rfl
@[simp] theorem Pmm.give_freeCount : (pmm.give start count).freeCount = pmm.freeCount + count := rfl

theorem Pmm.take_isUsed : (pmm.take start count).isUsed q =
    (pmm.isUsed q || decide (q ∈ List.range' start count)) :=
  bitGet_foldl_bitSet _ _ _

theorem Pmm.give_isUsed : (pmm.give start count).isUsed q =
    (pmm.isUsed q && decide (q ∉ List.range' start count)) :=
  bitGet_foldl_bitClear _ _ _

end Runs

/-! ## The scan finds the lowest run -/

/-- Every page of the run that starts at `start` is free. -/
def FreeRun (free : Nat → Bool) (start count : Nat) : Prop :=
  ∀ page, start ≤ page → page < start + count → free page = true

/-- The accumulators of the scan at `page`: the current run is maximal to the left and shorter
    than `count`, and no run of `count` pages ends before `page`. -/
structure ScanAt (free : Nat → Bool) (count page runStart runLength : Nat) : Prop where
  run_le : runLength ≤ page
  run_lt : runLength < count
  run_start : runLength ≠ 0 → runStart = page - runLength
  run_free : FreeRun free (page - runLength) runLength
  run_left : runLength < page → free (page - runLength - 1) = false
  none_before : ∀ start, start + count ≤ page → ¬ FreeRun free start count

theorem ScanAt.skip (h : ScanAt free count page runStart runLength) (hpage : free page = false) :
    ScanAt free count (page + 1) runStart 0 := by
  have hcount := h.run_lt
  refine ⟨Nat.zero_le _, by omega, ?_, ?_, ?_, ?_⟩
  · intro h0
    exact absurd rfl h0
  · intro q h1 h2
    omega
  · intro _
    exact hpage
  · intro start hle hrun
    by_cases hlast : start + count ≤ page
    · exact h.none_before start hlast hrun
    · have := hrun page (by omega) (by omega)
      rw [hpage] at this
      cases this

theorem ScanAt.extend (h : ScanAt free count page runStart runLength) (hpage : free page = true)
    (hne : runLength + 1 ≠ count) :
    ScanAt free count (page + 1) (if runLength = 0 then page else runStart) (runLength + 1) := by
  have hcount := h.run_lt
  have hle := h.run_le
  refine ⟨by omega, by omega, ?_, ?_, ?_, ?_⟩
  · intro _
    split
    · omega
    · next h0 =>
      have := h.run_start h0
      omega
  · intro q h1 h2
    by_cases hq : q = page
    · rw [hq]
      exact hpage
    · exact h.run_free q (by omega) (by omega)
  · intro hlt
    have := h.run_left (by omega)
    rwa [show page + 1 - (runLength + 1) - 1 = page - runLength - 1 by omega]
  · -- a run ending at `page` would contain the page left of the current run
    intro start hend hrun
    by_cases hlast : start + count ≤ page
    · exact h.none_before start hlast hrun
    · have hleft := h.run_left (by omega)
      have := hrun (page - runLength - 1) (by omega) (by omega)
      rw [hleft] at this
      cases this

theorem ScanAt.found (h : ScanAt free count page runStart runLength) (hpage : free page = true)
    (hlen : runLength + 1 = count) :
    (if runLength = 0 then page else runStart) = page + 1 - count ∧
      FreeRun free (page + 1 - count) count := by
  have hle := h.run_le
  refine ⟨?_, ?_⟩
  · split
    · omega
    · next h0 =>
      have := h.run_start h0
      omega
  · intro q h1 h2
    by_cases hq : q = page
    · rw [hq]
      exact hpage
    · exact h.run_free q (by omega) (by omega)

theorem allocScan_spec (left : Nat) (h : ScanAt free count page runStart runLength) :
    match allocScan free count left page runStart runLength with
    | none => ∀ start, start + count ≤ page + left → ¬ FreeRun free start count
    | some start => start + count ≤ page + left ∧ FreeRun free start count ∧
        ∀ start', start' < start → ¬ FreeRun free start' count := by
  induction left generalizing page runStart runLength with
  | zero => exact h.none_before
  | succ left ih =>
    have harith : page + (left + 1) = page + 1 + left := by omega
    rw [harith]
    by_cases hpage : free page = true
    · by_cases hlen : runLength + 1 = count
      · obtain ⟨hstart, hrun⟩ := h.found hpage hlen
        have hle := h.run_le
        rw [allocScan, if_pos hpage, if_pos hlen, hstart]
        refine ⟨by omega, hrun, ?_⟩
        intro start' hlt
        exact h.none_before start' (by omega)
      · rw [allocScan, if_pos hpage, if_neg hlen]
        exact ih (h.extend hpage hlen)
    · rw [allocScan, if_neg hpage]
      exact ih (h.skip (by simpa using hpage))

theorem scanAt_zero (free : Nat → Bool) (hcount : count ≠ 0) : ScanAt free count 0 0 0 := by
  refine ⟨Nat.le_refl 0, by omega, ?_, ?_, ?_, ?_⟩
  · intro h
    exact absurd rfl h
  · intro q h1 h2
    omega
  · intro h
    omega
  · intro start h
    omega

/-! ## What an allocation does -/

/-- An allocation takes the lowest free run, or there is none it may take. -/
theorem pmmAllocPages_cases (pmm : Pmm) (count : Nat) :
    (pmmAllocPages pmm count = (pmm, 0) ∧
      (count = 0 ∨ count > pmm.freeCount ∨
        ∀ start, start + count ≤ pmm.pageCount → ¬ FreeRun pmm.isFree start count)) ∨
    (count ≠ 0 ∧ count ≤ pmm.freeCount ∧ ∃ start, start + count ≤ pmm.pageCount ∧
      FreeRun pmm.isFree start count ∧
      (∀ start', start' < start → ¬ FreeRun pmm.isFree start' count) ∧
      pmmAllocPages pmm count = (pmm.take start count, UInt64.ofNat (start * argusPageSize))) := by
  unfold pmmAllocPages
  split
  · next h =>
    left
    rcases h with h | h
    · exact ⟨rfl, Or.inl h⟩
    · exact ⟨rfl, Or.inr (Or.inl h)⟩
  · next h =>
    rw [not_or] at h
    have hscan := allocScan_spec pmm.pageCount (scanAt_zero pmm.isFree h.1)
    cases hs : allocScan pmm.isFree count pmm.pageCount 0 0 0 with
    | none =>
      rw [hs, Nat.zero_add] at hscan
      exact Or.inl ⟨rfl, Or.inr (Or.inr hscan)⟩
    | some start =>
      rw [hs, Nat.zero_add] at hscan
      exact Or.inr ⟨h.1, by omega, start, hscan.1, hscan.2.1, hscan.2.2, rfl⟩

/-- What `pmm_init` leaves: page 0 is reserved and addresses do not wrap. -/
structure PmmOk (pmm : Pmm) : Prop where
  zero_reserved : pmm.isUsable 0 = false
  page_count : pmm.pageCount ≤ 2 ^ 35

theorem PmmOk.take (h : PmmOk pmm) (start count : Nat) : PmmOk (pmm.take start count) :=
  ⟨h.zero_reserved, h.page_count⟩

theorem PmmOk.give (h : PmmOk pmm) (start count : Nat) : PmmOk (pmm.give start count) :=
  ⟨h.zero_reserved, h.page_count⟩

/-- The page an address lies in. -/
def frameOf (address : UInt64) : Nat := address.toNat / argusPageSize

theorem page_address_toNat (hlt : pmm.pageCount ≤ 2 ^ 52) (hle : start < pmm.pageCount) :
    (UInt64.ofNat (start * argusPageSize)).toNat = start * argusPageSize := by
  unfold argusPageSize
  rw [UInt64.toNat_ofNat']
  omega

/-! ## Held pages -/

/-- These pages are pairwise distinct, managed and marked used. -/
structure Held (pmm : Pmm) (frames : List Nat) : Prop where
  nodup : frames.Nodup
  lt : ∀ f ∈ frames, f < pmm.pageCount
  usable : ∀ f ∈ frames, pmm.isUsable f = true
  used : ∀ f ∈ frames, pmm.isUsed f = true

theorem Held.nil (pmm : Pmm) : Held pmm [] where
  nodup := List.nodup_nil
  lt := fun _ hf => by cases hf
  usable := fun _ hf => by cases hf
  used := fun _ hf => by cases hf

theorem Held.perm {frames' : List Nat} (h : Held pmm frames) (hp : frames.Perm frames') :
    Held pmm frames' where
  nodup := hp.nodup_iff.mp h.nodup
  lt := fun f hf => h.lt f (hp.mem_iff.mpr hf)
  usable := fun f hf => h.usable f (hp.mem_iff.mpr hf)
  used := fun f hf => h.used f (hp.mem_iff.mpr hf)

theorem Held.left {own rest : List Nat} (h : Held pmm (own ++ rest)) : Held pmm own where
  nodup := (List.nodup_append.mp h.nodup).1
  lt := fun f hf => h.lt f (List.mem_append_left _ hf)
  usable := fun f hf => h.usable f (List.mem_append_left _ hf)
  used := fun f hf => h.used f (List.mem_append_left _ hf)

theorem FreeRun.free_of_mem {f : Nat} (hrun : FreeRun pmm.isFree start count)
    (hf : f ∈ List.range' start count) : pmm.isUsable f = true ∧ pmm.isUsed f = false := by
  rw [List.mem_range'_1] at hf
  have := hrun f hf.1 hf.2
  simpa [Pmm.isFree] using this

/-- Page 0 is reserved, so no run begins there. -/
theorem FreeRun.address_ne_zero (hrun : FreeRun pmm.isFree start count) (hpos : count ≠ 0)
    (hzero : pmm.isUsable 0 = false)
    (haddr : address.toNat = start * argusPageSize) : address ≠ 0 := by
  rintro rfl
  have hstart : start = 0 := by
    unfold argusPageSize at haddr
    simpa using haddr.symm
  have husable := (hrun.free_of_mem (List.mem_range'_1.mpr ⟨Nat.le_refl _, by omega⟩)).1
  rw [hstart, hzero] at husable
  cases husable

theorem Held.take (h : Held pmm frames) (hle : start + count ≤ pmm.pageCount)
    (hrun : FreeRun pmm.isFree start count) :
    Held (pmm.take start count) (List.range' start count ++ frames) := by
  refine ⟨?_, ?_, ?_, ?_⟩
  · rw [List.nodup_append]
    refine ⟨List.nodup_range' .., h.nodup, ?_⟩
    intro f hf g hg hfg
    have h1 := (hrun.free_of_mem hf).2
    rw [hfg, h.used g hg] at h1
    cases h1
  · intro f hf
    rw [List.mem_append, List.mem_range'_1] at hf
    rcases hf with hf | hf
    · show f < pmm.pageCount
      omega
    · exact h.lt f hf
  · intro f hf
    rw [List.mem_append] at hf
    rcases hf with hf | hf
    · exact (hrun.free_of_mem hf).1
    · exact h.usable f hf
  · intro f hf
    rw [List.mem_append] at hf
    rw [Pmm.take_isUsed]
    rcases hf with hf | hf
    · simp [hf]
    · simp [h.used f hf]

theorem Held.give (h : Held pmm (List.range' start count ++ frames)) :
    Held (pmm.give start count) frames := by
  have hdis := (List.nodup_append.mp h.nodup).2.2
  refine ⟨(List.nodup_append.mp h.nodup).2.1, ?_, ?_, ?_⟩
  · intro f hf
    exact h.lt f (List.mem_append_right _ hf)
  · intro f hf
    exact h.usable f (List.mem_append_right _ hf)
  · intro f hf
    have hnot : f ∉ List.range' start count := fun hm => hdis f hm f hf rfl
    rw [Pmm.give_isUsed, h.used f (List.mem_append_right _ hf), Bool.true_and, decide_eq_true_eq]
    exact hnot

/-- The outcome of an allocation, as the layers above use it: it fails and changes nothing, or
    its pages come in front of whatever is held. -/
theorem pmmAllocPages_spec (hok : PmmOk pmm) (count : Nat) :
    pmmAllocPages pmm count = (pmm, 0) ∨
    ∃ start address pmm', pmmAllocPages pmm count = (pmm', address) ∧
      address.toNat = start * argusPageSize ∧ address ≠ 0 ∧ start + count ≤ pmm.pageCount ∧
      PmmOk pmm' ∧ pmm'.pageCount = pmm.pageCount ∧ pmm'.freeCount + count = pmm.freeCount ∧
      ∀ frames, Held pmm frames → Held pmm' (List.range' start count ++ frames) := by
  rcases pmmAllocPages_cases pmm count with ⟨h, -⟩ | ⟨hpos, hfree, start, hle, hrun, -, h⟩
  · exact Or.inl h
  · have haddr := page_address_toNat (hok.page_count.trans (by decide))
      (show start < pmm.pageCount by omega)
    refine Or.inr ⟨start, _, _, h, haddr, hrun.address_ne_zero hpos hok.zero_reserved haddr, hle,
      hok.take start count, rfl, ?_, ?_⟩
    · rw [Pmm.take_freeCount]
      omega
    · intro frames hheld
      exact hheld.take hle hrun

/-- Releasing a held run clears exactly that run. -/
theorem pmmReleasePages_eq_give (haddr : address.toNat = start * argusPageSize) (hpos : count ≠ 0)
    (h : Held pmm (List.range' start count ++ frames)) :
    pmmReleasePages pmm address count = (pmm.give start count, true) := by
  have halign : address &&& 4095 = 0 := by
    rw [← UInt64.toNat_inj, toNat_and_low address 4095 12 rfl, haddr]
    unfold argusPageSize
    show start * 4096 % 4096 = 0
    omega
  have hfirst : address.toNat / argusPageSize = start := by
    rw [haddr]
    exact Nat.mul_div_cancel start (by decide)
  have hmem : ∀ f, start ≤ f → f < start + count → f ∈ List.range' start count ++ frames := by
    intro f h1 h2
    rw [List.mem_append, List.mem_range'_1]
    omega
  have hlast := h.lt (start + count - 1) (hmem _ (by omega) (by omega))
  unfold pmmReleasePages
  rw [if_neg (not_not.mpr halign)]
  dsimp only
  rw [hfirst, if_neg (by omega), if_neg]
  rw [Bool.not_eq_true, List.any_eq_false]
  intro f hf
  rw [List.mem_range'_1] at hf
  have := hmem f hf.1 hf.2
  simp [h.usable f this, h.used f this]

/-- Releasing a held run succeeds and gives back exactly that run. -/
theorem pmmReleasePages_held (hok : PmmOk pmm) (haddr : address.toNat = start * argusPageSize)
    (hpos : count ≠ 0) (h : Held pmm (List.range' start count ++ frames)) :
    ∃ pmm', pmmReleasePages pmm address count = (pmm', true) ∧ PmmOk pmm' ∧
      pmm'.pageCount = pmm.pageCount ∧ pmm'.freeCount = pmm.freeCount + count ∧
      Held pmm' frames :=
  ⟨pmm.give start count, pmmReleasePages_eq_give haddr hpos h, hok.give start count, rfl, rfl,
    h.give⟩

theorem bitmap_ext {a b : Bitmap} (h : ∀ page, bitGet a page = bitGet b page) : a = b := by
  funext i
  rw [← UInt8.toNat_inj]
  apply Nat.eq_of_testBit_eq
  intro k
  by_cases hk : k < 8
  · have := h (8 * i + k)
    rw [bitGet_eq_testBit, bitGet_eq_testBit, show (8 * i + k) / 8 = i by omega,
      show (8 * i + k) % 8 = k by omega] at this
    exact this
  · have hpow : 2 ^ 8 ≤ 2 ^ k := Nat.pow_le_pow_right (by decide) (by omega)
    have ha := (a i).toNat_lt
    have hb := (b i).toNat_lt
    rw [Nat.testBit_lt_two_pow (by omega), Nat.testBit_lt_two_pow (by omega)]

theorem Pmm.give_take (hfree : count ≤ pmm.freeCount) (hrun : FreeRun pmm.isFree start count) :
    (pmm.take start count).give start count = pmm := by
  have hbits : ((pmm.take start count).give start count).usedBitmap = pmm.usedBitmap := by
    apply bitmap_ext
    intro page
    have h : ((pmm.take start count).give start count).isUsed page = pmm.isUsed page := by
      rw [Pmm.give_isUsed, Pmm.take_isUsed]
      by_cases hmem : page ∈ List.range' start count
      · simp [hmem, (hrun.free_of_mem hmem).2]
      · simp [hmem]
    exact h
  have hcount : ((pmm.take start count).give start count).freeCount = pmm.freeCount := by
    rw [Pmm.give_freeCount, Pmm.take_freeCount]
    omega
  calc (pmm.take start count).give start count
      = { pmm with
          usedBitmap := ((pmm.take start count).give start count).usedBitmap
          freeCount := ((pmm.take start count).give start count).freeCount } := rfl
    _ = pmm := by rw [hbits, hcount]

/-- An allocation undone by the release of its run. -/
theorem pmmReleasePages_allocPages (hlt : pmm.pageCount ≤ 2 ^ 52)
    (hne : (pmmAllocPages pmm count).2 ≠ 0) :
    pmmReleasePages (pmmAllocPages pmm count).1 (pmmAllocPages pmm count).2 count =
      (pmm, true) := by
  rcases pmmAllocPages_cases pmm count with ⟨heq, _⟩ | ⟨h0, hfree, start, hle, hrun, _, heq⟩
  · rw [heq] at hne
    exact absurd rfl hne
  · have haddr := page_address_toNat hlt (show start < pmm.pageCount by omega)
    rw [heq, pmmReleasePages_eq_give haddr h0 ((Held.nil pmm).take hle hrun),
      Pmm.give_take hfree hrun]

end ArgusOs.Memory
