/-
  What `heap_validate` decides.

  The memory of the heap is arbitrary here: links may point anywhere and sizes may be anything.
  `Tiles` says what a heap should look like when its blocks are followed from one to the next,
  in natural numbers and without a bound on their count. `heap_validate` accepts exactly that
  (`validateFrom_iff`), and it reads only the headers of `visited`, which lie in the heap.
-/
import ArgusOs.Heap.Blocks

namespace ArgusOs.Heap

open Lib Memory

/-- The address behind the heap. -/
def Region.limit (heap : Region) : Nat := heap.base.toNat + heap.size.toNat

/-- What the header of a block must hold behind the block `previous`. -/
structure Accepts (mem : Mem) (previous block : UInt64) : Prop where
  magic : magicAt mem block = heapBlockMagic
  link : previousAt mem block = previous
  nonempty : sizeAt mem block ≠ 0
  aligned : (sizeAt mem block).toNat % 16 = 0
  calm : ¬ (previous ≠ 0 ∧ freeAt mem previous ≠ 0 ∧ freeAt mem block ≠ 0)

/-- The blocks from a link on lie one behind the other from `a` up to `finish`. -/
inductive Tiles (mem : Mem) (finish : Nat) : UInt64 → UInt64 → Nat → Prop
  | done (previous : UInt64) : Tiles mem finish previous 0 finish
  | block {previous block : UInt64} (hne : block ≠ 0) (haccepts : Accepts mem previous block)
      (hrest : Tiles mem finish block (nextAt mem block)
        (block.toNat + 32 + (sizeAt mem block).toNat)) :
      Tiles mem finish previous block block.toNat

variable {mem mem' : Mem} {heap : Region} {previous block : UInt64} {a finish left : Nat}

theorem Tiles.le (h : Tiles mem finish previous block a) : a ≤ finish := by
  induction h with
  | done => exact Nat.le_refl finish
  | block _ _ _ ih => omega

theorem Tiles.at_block (h : Tiles mem finish previous block a) (hne : block ≠ 0) :
    block.toNat = a ∧ Accepts mem previous block ∧
      Tiles mem finish block (nextAt mem block) (a + 32 + (sizeAt mem block).toNat) := by
  cases h with
  | done => exact absurd rfl hne
  | block _ haccepts hrest => exact ⟨rfl, haccepts, hrest⟩

section

variable (hbase : heap.base ≠ 0) (hend : heap.limit ≤ 2 ^ 64)

include hbase hend

theorem blockInHeap_iff (hsize : 32 ≤ heap.size.toNat) (block : UInt64) :
    blockInHeap heap block = true ↔
      heap.base.toNat ≤ block.toNat ∧ block.toNat + 32 ≤ heap.limit := by
  have hlast : (heap.base + heap.size - headerBytes).toNat = heap.limit - 32 := by
    unfold Region.limit at *
    rw [UInt64.toNat_sub, UInt64.toNat_add]
    show (2 ^ 64 - 32 + _) % 2 ^ 64 = _
    omega
  unfold blockInHeap
  rw [decide_eq_true_iff, ge_iff_le, UInt64.le_iff_toNat_le, UInt64.le_iff_toNat_le, hlast]
  simp only [ne_eq, hbase, not_false_eq_true, true_and]
  unfold Region.limit
  omega

/-- The checks on one block, at the address where the last one ended. -/
theorem badBlock_eq_false (hsize : 32 ≤ heap.size.toNat) (ha : heap.base.toNat ≤ a)
    (hfinish : a ≤ heap.limit) (hne : block ≠ 0) :
    badBlock heap mem block previous (UInt64.ofNat a) = false ↔
      block.toNat = a ∧ Accepts mem previous block ∧
        a + 32 + (sizeAt mem block).toNat ≤ heap.limit := by
  have hat : block = UInt64.ofNat a ↔ block.toNat = a := by
    have hpos : block.toNat ≠ 0 := fun hc => hne (UInt64.toNat_inj.mp hc)
    have hlt := block.toNat_lt
    rw [← UInt64.toNat_inj, UInt64.toNat_ofNat']
    omega
  have haligned : sizeAt mem block &&& (heapAlignment - 1) = 0 ↔
    (sizeAt mem block).toNat % 16 = 0 := by
    rw [← UInt64.toNat_inj, toNat_and_low _ _ 4 (by decide)]
    rfl
  have hroom (hin : block.toNat + 32 ≤ heap.limit) :
      ¬ sizeAt mem block > heap.base + heap.size - block - headerBytes ↔
        block.toNat + 32 + (sizeAt mem block).toNat ≤ heap.limit := by
    have hrest : (heap.base + heap.size - block - headerBytes).toNat =
        heap.limit - block.toNat - 32 := by
      unfold Region.limit at *
      rw [UInt64.toNat_sub, UInt64.toNat_sub, UInt64.toNat_add]
      show (2 ^ 64 - 32 + _) % 2 ^ 64 = _
      omega
    rw [gt_iff_lt, UInt64.lt_iff_toNat_lt, hrest]
    omega
  unfold badBlock
  rw [decide_eq_false_iff_not]
  simp only [not_or, Bool.not_eq_false, blockInHeap_iff hbase hend hsize, ne_eq, not_not,
    hat, haligned]
  constructor
  · rintro ⟨⟨-, hin⟩, rfl, hmagic, hprevious, hnonempty, h16, hfits, hcalm⟩
    exact ⟨rfl, ⟨hmagic, hprevious, hnonempty, h16, hcalm⟩, (hroom hin).mp hfits⟩
  · rintro ⟨rfl, ⟨hmagic, hprevious, hnonempty, h16, hcalm⟩, hfits⟩
    have hin : block.toNat + 32 ≤ heap.limit := by omega
    exact ⟨⟨ha, hin⟩, rfl, hmagic, hprevious, hnonempty, h16, (hroom hin).mpr hfits, hcalm⟩

theorem validateFrom_zero (ha : heap.base.toNat ≤ a) (hlimit : a ≤ heap.limit) :
    validateFrom heap mem left 0 previous (UInt64.ofNat a) = true ↔
      Tiles mem heap.limit previous 0 a := by
  have hpos : 0 < heap.base.toNat := Nat.pos_of_ne_zero fun hc => hbase (UInt64.toNat_inj.mp hc)
  have hlast : (UInt64.ofNat a = heap.base + heap.size) ↔ a = heap.limit := by
    unfold Region.limit at *
    rw [← UInt64.toNat_inj, UInt64.toNat_ofNat', UInt64.toNat_add]
    omega
  have hends : validateFrom heap mem left 0 previous (UInt64.ofNat a) =
      decide (UInt64.ofNat a = heap.base + heap.size) := by
    cases left <;> rfl
  rw [hends, decide_eq_true_iff, hlast]
  constructor
  · rintro rfl
    exact .done previous
  · intro h
    cases h with
    | done => rfl
    | block hne => exact absurd rfl hne

/-- The loop accepts what is tiled; the count of blocks never runs out first, as each block
    takes more than its header. -/
theorem validateFrom_iff (hsize : 32 ≤ heap.size.toNat) (ha : heap.base.toNat ≤ a)
    (hlimit : a ≤ heap.limit) (hleft : (heap.limit - a) / 32 ≤ left) :
    validateFrom heap mem left block previous (UInt64.ofNat a) = true ↔
      Tiles mem heap.limit previous block a := by
  induction left generalizing block previous a with
  | zero =>
    by_cases hblock : block = 0
    · exact hblock ▸ validateFrom_zero hbase hend ha hlimit
    · unfold validateFrom
      rw [if_neg hblock]
      refine iff_of_false Bool.false_ne_true fun h => ?_
      obtain ⟨-, -, hrest⟩ := h.at_block hblock
      have := hrest.le
      omega
  | succ left ih =>
    by_cases hblock : block = 0
    · exact hblock ▸ validateFrom_zero hbase hend ha hlimit
    · unfold validateFrom
      rw [if_neg hblock]
      have hgood := @badBlock_eq_false mem _ previous _ _ hbase hend hsize ha hlimit hblock
      cases hbad : badBlock heap mem block previous (UInt64.ofNat a) with
      | true =>
        refine iff_of_false Bool.false_ne_true fun h => ?_
        obtain ⟨hat, haccepts, hrest⟩ := h.at_block hblock
        rw [hgood.mpr ⟨hat, haccepts, hrest.le⟩] at hbad
        cases hbad
      | false =>
        obtain ⟨rfl, haccepts, hfits⟩ := hgood.mp hbad
        have hcursor : block + headerBytes + sizeAt mem block =
            UInt64.ofNat (block.toNat + 32 + (sizeAt mem block).toNat) := by
          rw [← UInt64.toNat_inj, UInt64.toNat_add, UInt64.toNat_add, UInt64.toNat_ofNat']
          exact Nat.mod_add_mod ..
        rw [if_neg Bool.false_ne_true]
        rw [hcursor]
        by_cases hnext : nextAt mem block ≠ 0 ∧
            nextAt mem block ≠ UInt64.ofNat (block.toNat + 32 + (sizeAt mem block).toNat)
        · -- the next block would have to start where this one ends
          rw [if_pos hnext]
          refine iff_of_false Bool.false_ne_true fun h => ?_
          obtain ⟨-, -, hrest⟩ := h.at_block hblock
          rw [← (hrest.at_block hnext.1).1, UInt64.ofNat_toNat] at hnext
          exact hnext.2 rfl
        · rw [if_neg hnext, ih (by omega) hfits (by omega)]
          constructor
          · exact .block hblock haccepts
          · exact fun h => (h.at_block hblock).2.2

/-- The loop from the first block on. -/
theorem validateFrom_base_iff :
    validateFrom heap mem (heap.size.toNat / 32) heap.base 0 heap.base = true ↔
      Tiles mem heap.limit 0 heap.base heap.base.toNat := by
  by_cases hsize : 32 ≤ heap.size.toNat
  · have hiff := @validateFrom_iff mem _ 0 heap.base _ (heap.size.toNat / 32) hbase hend hsize
      (Nat.le_refl _) (Nat.le_add_right ..)
      (by unfold Region.limit; omega)
    rwa [UInt64.ofNat_toNat] at hiff
  · rw [Nat.div_eq_of_lt (by omega)]
    unfold validateFrom
    rw [if_neg hbase]
    refine iff_of_false Bool.false_ne_true fun h => ?_
    have := (h.at_block hbase).2.2.le
    unfold Region.limit at this
    omega

end

/-! ## The headers that are read -/

/-- The blocks whose headers the loop reads: those that stand in the heap and where the last
    one ended. -/
def visitedFrom (heap : Region) (mem : Mem) : Nat → UInt64 → UInt64 → UInt64 → List UInt64
  | 0, _, _, _ => []
  | left + 1, block, previous, cursor =>
    if block = 0 ∨ blockInHeap heap block = false ∨ block ≠ cursor then []
    else if badBlock heap mem block previous cursor then [block]
    else
      let cursor := block + headerBytes + sizeAt mem block
      if nextAt mem block ≠ 0 ∧ nextAt mem block ≠ cursor then [block]
      else block :: visitedFrom heap mem left (nextAt mem block) block cursor

def visited (heap : Region) (mem : Mem) : List UInt64 :=
  if heap.firstBlock = 0 ∨ heap.firstBlock ≠ heap.base then []
  else visitedFrom heap mem (heap.size / headerBytes).toNat heap.firstBlock 0 heap.base

variable {cursor : UInt64}

theorem visitedFrom_spec :
    (visitedFrom heap mem left block previous cursor).length ≤ left ∧
      ∀ b ∈ visitedFrom heap mem left block previous cursor, blockInHeap heap b = true := by
  induction left generalizing block previous cursor with
  | zero => exact ⟨Nat.le_refl 0, nofun⟩
  | succ left ih =>
    unfold visitedFrom
    split
    · exact ⟨Nat.zero_le _, nofun⟩
    · rename_i hin
      rw [not_or, not_or, Bool.not_eq_false] at hin
      have hone : ([block] : List UInt64).length ≤ left + 1 ∧
          ∀ b ∈ [block], blockInHeap heap b = true :=
        ⟨Nat.le_add_left 1 left, List.forall_mem_singleton.mpr hin.2.1⟩
      split
      · exact hone
      · dsimp only
        split
        · exact hone
        · exact ⟨Nat.succ_le_succ ih.1, List.forall_mem_cons.mpr ⟨hin.2.1, ih.2⟩⟩

/-- The two memories hold the same header. -/
def SameHeader (mem mem' : Mem) (block : UInt64) : Prop :=
  ∀ x, block.toNat ≤ x → x < block.toNat + 32 → mem' x = mem x

theorem SameHeader.fields (h : SameHeader mem mem' block) :
    sizeAt mem' block = sizeAt mem block ∧ previousAt mem' block = previousAt mem block ∧
      nextAt mem' block = nextAt mem block ∧ magicAt mem' block = magicAt mem block ∧
      freeAt mem' block = freeAt mem block := by
  refine ⟨load64_congr ?_, load64_congr ?_, load64_congr ?_, load32_congr ?_, load32_congr ?_⟩
  all_goals
    intro x h1 h2
    exact h x (by omega) (by omega)

theorem badBlock_congr (hblock : SameHeader mem mem' block)
    (hprevious : previous = 0 ∨ SameHeader mem mem' previous) :
    badBlock heap mem' block previous cursor = badBlock heap mem block previous cursor := by
  obtain ⟨hsize, hlink, -, hmagic, hfree⟩ := hblock.fields
  unfold badBlock
  rw [hsize, hlink, hmagic, hfree]
  rcases hprevious with rfl | hprevious
  · simp
  · rw [hprevious.fields.2.2.2.2]

/-- What other memory holds does not matter to the loop. -/
theorem validateFrom_congr
    (h : ∀ b ∈ visitedFrom heap mem left block previous cursor, SameHeader mem mem' b)
    (hprevious : previous = 0 ∨ SameHeader mem mem' previous) :
    validateFrom heap mem' left block previous cursor =
      validateFrom heap mem left block previous cursor := by
  induction left generalizing block previous cursor with
  | zero => rfl
  | succ left ih =>
    unfold validateFrom
    unfold visitedFrom at h
    by_cases hblock : block = 0
    · rw [if_pos hblock, if_pos hblock]
    · rw [if_neg hblock, if_neg hblock]
      by_cases hin : blockInHeap heap block = false ∨ block ≠ cursor
      · have hbad (mem : Mem) : badBlock heap mem block previous cursor = true := by
          unfold badBlock
          rw [decide_eq_true_iff]
          rcases hin with hin | hin
          · exact Or.inl hin
          · exact Or.inr (Or.inl hin)
        rw [hbad, hbad, if_pos rfl, if_pos rfl]
      · rw [if_neg (not_or.mpr ⟨hblock, hin⟩)] at h
        have hsame : SameHeader mem mem' block := by
          apply h
          split
          · exact List.mem_singleton_self block
          · dsimp only
            split
            · exact List.mem_singleton_self block
            · exact List.mem_cons_self ..
        obtain ⟨hsize, -, hnext, -, -⟩ := hsame.fields
        rw [badBlock_congr hsame hprevious, hsize, hnext]
        split
        · rfl
        · rename_i hgood
          rw [if_neg hgood] at h
          dsimp only at h ⊢
          split
          · rfl
          · rename_i hfollow
            rw [if_neg hfollow] at h
            exact ih (fun b hb => h b (List.mem_cons_of_mem _ hb)) (Or.inr hsame)

/-! ## The checker -/

/-- `heap_validate` accepts exactly the heaps that are tiled from `heap_base` on, where
    `first_block` must be; it visits at most as many blocks as the heap has room for headers,
    and reads no header outside the heap. -/
theorem heap_validate_exact (heap : Region) (mem : Mem) (hend : heap.limit ≤ 2 ^ 64) :
    (heapValidate heap mem = true ↔
      heap.firstBlock = heap.base ∧ heap.base ≠ 0 ∧
        Tiles mem heap.limit 0 heap.base heap.base.toNat) ∧
    (visited heap mem).length ≤ heap.size.toNat / 32 ∧
    (∀ b ∈ visited heap mem, heap.base.toNat ≤ b.toNat ∧ b.toNat + 32 ≤ heap.limit) ∧
    ∀ mem', (∀ b ∈ visited heap mem, SameHeader mem mem' b) →
      heapValidate heap mem' = heapValidate heap mem := by
  have hcount : (heap.size / headerBytes).toNat = heap.size.toNat / 32 := UInt64.toNat_div ..
  unfold heapValidate visited
  by_cases hfirst : heap.firstBlock = 0 ∨ heap.firstBlock ≠ heap.base
  · simp only [if_pos hfirst]
    refine ⟨iff_of_false Bool.false_ne_true ?_, Nat.zero_le _, nofun, fun _ _ => trivial⟩
    rintro ⟨heq, hne, -⟩
    rcases hfirst with hzero | hother
    · exact hne (heq ▸ hzero)
    · exact hother heq
  · simp only [if_neg hfirst]
    rw [not_or, not_not] at hfirst
    obtain ⟨hzero, heq⟩ := hfirst
    rw [heq] at hzero ⊢
    obtain ⟨hlength, hin⟩ := @visitedFrom_spec mem heap 0 heap.base
      (heap.size / headerBytes).toNat heap.base
    rw [hcount] at hlength hin ⊢
    refine ⟨?_, hlength, ?_, fun mem' hsame => validateFrom_congr hsame (Or.inl rfl)⟩
    · rw [validateFrom_base_iff hzero hend]
      exact ⟨fun h => ⟨rfl, hzero, h⟩, fun h => h.2.2⟩
    · intro b hb
      have hsize : 32 ≤ heap.size.toNat := by
        have := List.length_pos_of_mem hb
        omega
      exact (blockInHeap_iff hzero hend hsize b).mp (hin b hb)

/-- A heap of 64 bytes with one block. -/
def oneBlock : Mem := writeHeader (fun _ => 0) 4096 32 0 0

theorem oneBlock_validates :
    (⟨4096, 64, 4096⟩ : Region).limit ≤ 2 ^ 64 ∧ heapValidate ⟨4096, 64, 4096⟩ oneBlock = true ∧
      Tiles oneBlock 4160 0 4096 4096 := by
  have hvalid : heapValidate ⟨4096, 64, 4096⟩ oneBlock = true := by decide +kernel
  exact ⟨by decide, hvalid,
    ((heap_validate_exact ⟨4096, 64, 4096⟩ oneBlock (by decide)).1.mp hvalid).2.2⟩

theorem oneBlock_without_first :
    Tiles oneBlock (⟨4096, 64, 0⟩ : Region).limit 0 4096 4096 ∧
      heapValidate ⟨4096, 64, 0⟩ oneBlock = false := by
  refine ⟨?_, rfl⟩
  exact (@validateFrom_base_iff oneBlock ⟨4096, 64, 0⟩ (by decide) (by decide)).mp
    (by decide +kernel)

end ArgusOs.Heap
