/-
  The blocks in use are the pointers that are out.

  `HeapInv` gives every pointer that is out a block in use. Here is the other direction
  (`AllLive`): a block in use has a pointer that is out. Every step keeps both, so that every run
  leaves a sound heap (`heap_run_sound`). It is also what a pointer needs to be
  refused once it was given back (`kfree_exact`), and with no pointer left and no two free
  neighbours it leaves a single block (`frees_restore`). The second result is about the chain
  of headers alone: it does not ask what stands in the payloads.
-/
import ArgusOs.Heap.Runs

namespace ArgusOs.Heap

open Lib Memory

/-! ## Blocks in use -/

/-- Every block in use belongs to a pointer. -/
def AllLive (base : Nat) (blocks : List Block) (live : List (UInt64 × UInt64)) : Prop :=
  ∀ e ∈ place Block.width base blocks, e.2.free = false → ∃ l ∈ live, l.1.toNat = e.1 + 32

namespace AllLive
variable {base : Nat} {xs ys : List Block} {b : Block} {live : List (UInt64 × UInt64)}
  {pointer : UInt64}

theorem take (h : AllLive base (xs ++ b :: ys) live) (size : Nat) (requested : UInt64)
    (hpointer : pointer.toNat = base + extent Block.width xs + 32) :
    AllLive base (xs ++ (taken size b ++ ys)) ((pointer, requested) :: live) := by
  have hold : ∀ e : Nat × Block, e.2.free = false → e ∈ place Block.width base (xs ++ b :: ys) →
      ∃ l ∈ (pointer, requested) :: live, l.1.toNat = e.1 + 32 := by
    intro e hused he
    obtain ⟨l, hl, hat⟩ := h e he hused
    exact ⟨l, List.mem_cons_of_mem _ hl, hat⟩
  have hnew : ∀ e : Nat × Block, e.1 = base + extent Block.width xs →
      ∃ l ∈ (pointer, requested) :: live, l.1.toNat = e.1 + 32 := by
    intro e he
    exact ⟨_, List.mem_cons_self .., by rw [he]; exact hpointer⟩
  intro e he hused
  simp only [place_append, extent_taken, List.mem_append] at he
  rcases he with he | he | he
  · exact hold e hused (by simp [place_append, he])
  · unfold taken at he
    split at he
    · simp only [place_cons, place_nil, List.mem_cons, List.not_mem_nil, or_false] at he
      rcases he with rfl | rfl
      · exact hnew _ rfl
      · cases hused
    · rw [place_cons, place_nil, List.mem_singleton] at he
      exact hnew e (congrArg Prod.fst he)
  · exact hold e hused (by simpa [place_append] using Or.inr (Or.inr he))

theorem give (h : AllLive base (xs ++ b :: ys) live)
    (hpointer : pointer.toNat = base + extent Block.width xs + 32) :
    AllLive base (released xs b ys) (live.filter fun l => l.1 ≠ pointer) := by
  intro e he hused
  have hwas : e ∈ place Block.width base (xs ++ b :: ys) ∧ e.1 ≠ base + extent Block.width xs := by
    rw [place_append, place_cons, List.mem_append, List.mem_cons]
    rcases (mem_place_released hused).mp he with hx | hy
    · have hbounds := (place_bounds hx).2
      have := e.2.width_pos
      exact ⟨Or.inl hx, by omega⟩
    · have hbounds := (place_bounds hy).1
      have := b.width_pos
      exact ⟨Or.inr (Or.inr hy), by omega⟩
  obtain ⟨l, hl, hat⟩ := h e hwas.1 hused
  refine ⟨l, List.mem_filter.mpr ⟨hl, ?_⟩, hat⟩
  rw [decide_eq_true_iff]
  rintro rfl
  exact hwas.2 (by omega)

end AllLive

/-! ## Steps -/

section Steps
variable {s : HeapState} {blocks : List Block}

theorem HeapCore.malloc_live (h : HeapCore s blocks)
    (hall : AllLive s.heap.base.toNat blocks s.live) (size : UInt64) {mem : Mem} {pointer : UInt64}
    (hcall : kmalloc s.heap s.mem size = some (mem, pointer)) :
    ∃ blocks', HeapCore
        ⟨s.heap, mem, if pointer = 0 then s.live else (pointer, size) :: s.live⟩ blocks' ∧
      AllLive s.heap.base.toNat blocks'
        (if pointer = 0 then s.live else (pointer, size) :: s.live) ∧
      Rearranged s.mem s.heap.base.toNat blocks mem blocks' := by
  rcases h.kmalloc_cases size with
    ⟨hnone, -⟩ | ⟨xs, b, ys, found, rfl, hfree, hfound, hne, halign, hsize, hle, -, hsome⟩
  · rw [hnone, Option.some.injEq, Prod.mk.injEq] at hcall
    obtain ⟨rfl, rfl⟩ := hcall
    exact ⟨blocks, h, hall, .refl h.chained⟩
  · rw [hsome, Option.some.injEq, Prod.mk.injEq] at hcall
    obtain ⟨rfl, rfl⟩ := hcall
    obtain ⟨hcore, hpointer⟩ := h.take rfl hfree hfound hne halign hsize hle
    obtain ⟨_, _, _, hend⟩ := h.fits.middle
    rw [if_neg hpointer]
    refine ⟨_, hcore, hall.take _ size ?_,
      takeBlock_rearranged h.fits h.chained hfound hne halign hsize⟩
    rw [toNat_behind (by omega), hfound]

theorem HeapCore.kfree_live (h : HeapCore s blocks) {l : UInt64 × UInt64} (hl : l ∈ s.live) :
    ∃ xs b ys, blocks = xs ++ b :: ys ∧
      l.1.toNat = s.heap.base.toNat + extent Block.width xs + 32 ∧
      (l.1 - headerBytes).toNat = s.heap.base.toNat + extent Block.width xs ∧
      kfree s.heap s.mem l.1 = (releaseBlock s.mem (l.1 - headerBytes), true) := by
  obtain ⟨a, b, hplace, hused, hptr, _⟩ := h.live_used l hl
  have haligned := place_aligned h.fits hplace
  have hbounds := place_bounds hplace
  obtain ⟨xs, ys, rfl, ha⟩ := mem_place_iff.mp hplace
  obtain ⟨_, hb, _⟩ := h.chained.middle
  obtain ⟨_, hne, _, hend⟩ := h.fits.middle
  dsimp only at haligned hbounds ha hne
  rw [h.extent_eq, Block.width] at hbounds
  have hbytes : headerBytes.toNat = 32 := rfl
  have hlast := h.end_lt
  have hat : (l.1 - headerBytes).toNat = s.heap.base.toNat + extent Block.width xs := by
    rw [toNat_sub64 (by omega)]
    omega
  refine ⟨xs, b, ys, rfl, by omega, hat, ?_⟩
  have hsome : l.1 ≠ 0 := by
    intro hz
    rw [hz] at hptr
    simp at hptr
  have hrange : ¬ (s.heap.firstBlock = 0 ∨ l.1 < s.heap.base + headerBytes ∨
      l.1 ≥ s.heap.base + s.heap.size ∨ l.1 &&& (heapAlignment - 1) ≠ 0) := by
    rw [h.first, not_or, not_or, not_or, UInt64.lt_iff_toNat_lt, UInt64.toNat_add, ge_iff_le,
      UInt64.le_iff_toNat_le, UInt64.toNat_add, not_not, hbytes]
    refine ⟨h.base_ne_zero, by omega, by omega, UInt64.toNat_inj.mp ?_⟩
    rw [toNat_and_low _ _ 4 (by decide)]
    show l.1.toNat % 2 ^ 4 = 0
    omega
  have hblock : ¬ (blockInHeap s.heap (l.1 - headerBytes) = false ∨
      magicAt s.mem (l.1 - headerBytes) ≠ heapBlockMagic ∨
      freeAt s.mem (l.1 - headerBytes) ≠ 0) := by
    have hin : blockInHeap s.heap (l.1 - headerBytes) = true :=
      (blockInHeap_iff h.base_ne_zero (Nat.le_of_lt h.end_lt) h.size_ge _).mpr
        ⟨by omega, show _ ≤ s.heap.base.toNat + s.heap.size.toNat by omega⟩
    have hkept : ¬ freeAt s.mem (l.1 - headerBytes) ≠ 0 := by
      rw [hb.freeAt_ne_zero hat, hused]
      exact Bool.false_ne_true
    rw [hin, hb.magicAt hat]
    simpa using hkept
  unfold kfree
  rw [if_neg hsome, if_neg hrange, if_neg hblock]

theorem HeapCore.free_live (h : HeapCore s blocks)
    (hall : AllLive s.heap.base.toNat blocks s.live) {l : UInt64 × UInt64} (hl : l ∈ s.live) :
    (kfree s.heap s.mem l.1).2 = true ∧
      ∃ blocks', HeapCore
          ⟨s.heap, (kfree s.heap s.mem l.1).1, s.live.filter fun l' => l'.1 ≠ l.1⟩ blocks' ∧
        AllLive s.heap.base.toNat blocks' (s.live.filter fun l' => l'.1 ≠ l.1) ∧
        Rearranged s.mem s.heap.base.toNat blocks (kfree s.heap s.mem l.1).1 blocks' := by
  obtain ⟨xs, b, ys, rfl, hpointer, hat, hfree⟩ := h.kfree_live hl
  have hrelease := releaseBlock_rearranged h.fits h.chained hat
  have hcore := h.give hpointer hat
  rw [hfree]
  dsimp only
  exact ⟨rfl, released xs b ys, hcore, hall.give hpointer, hrelease⟩

end Steps

/-! ## Whole runs -/

theorem HeapInv.reachable_live {start s : HeapState}
    (hstart : ∃ blocks, HeapInv start blocks ∧ AllLive start.heap.base.toNat blocks start.live)
    (h : HeapReachable start s) :
    ∃ blocks, HeapInv s blocks ∧ AllLive s.heap.base.toNat blocks s.live := by
  induction h with
  | start => exact hstart
  | malloc size _ hcall ih =>
    obtain ⟨blocks, hinv, hall⟩ := ih
    obtain ⟨blocks', hcore, hall', hmoved⟩ := hinv.malloc_live hall size hcall
    exact ⟨blocks', ⟨hcore, hmoved.marked hinv.marked⟩, hall'⟩
  | @free s pointer _ ih =>
    obtain ⟨blocks, hinv, hall⟩ := ih
    rcases hinv.kfree_cases pointer with hno | ⟨xs, b, ys, rfl, _, hpointer, hat, hyes⟩
    · rw [hno]
      exact ⟨blocks, hinv, hall⟩
    · have hrelease := releaseBlock_rearranged hinv.fits hinv.chained hat
      have hgive := hinv.give hpointer hat
      rw [hyes]
      dsimp only
      rw [if_pos rfl]
      refine ⟨released xs b ys, ⟨hgive, ?_⟩, hall.give hpointer⟩
      dsimp only
      exact hrelease.marked hinv.marked
  | write mem _ hwrite ih =>
    obtain ⟨blocks, hinv, hall⟩ := ih
    exact ⟨blocks, hinv.write hwrite, hall⟩

theorem allLive_fresh (base size : Nat) : AllLive base [⟨size, true⟩] [] := by
  intro e he hused
  rw [place_cons, place_nil, List.mem_singleton] at he
  rw [he] at hused
  cases hused

/-- After `heap_init`, every run of calls with any arguments, and of clients that write into
    what they were given, leaves a sound heap. -/
theorem heap_run_sound (phys phys' : Phys) (old heap : Region) (pages : UInt64)
    (hpages : PagesOk phys.pmm) (hinit : heapInit phys old pages = (phys', heap, true))
    (hclean : ∀ x, heap.base.toNat ≤ x → x < heap.base.toNat + heap.size.toNat → x % 16 = 8 →
      load32 phys.mem x ≠ heapBlockMagic)
    (s : HeapState) (hrun : HeapReachable ⟨heap, phys'.mem, []⟩ s) : HeapSound s := by
  obtain ⟨blocks, hinv, -⟩ :=
    HeapInv.reachable_live ⟨_, heapInit_inv hpages hinit hclean, allLive_fresh _ _⟩ hrun
  exact hinv.sound

/-- Three blocks are taken and the second is given back. -/
theorem heap_run_sound_onePage :
    ∃ mem, HeapReachable ⟨onePageHeap, onePageMem, []⟩ ⟨onePageHeap, mem,
      [(4240, 100), (4128, 1)]⟩ ∧
      HeapSound ⟨onePageHeap, mem, [(4240, 100), (4128, 1)]⟩ := by
  obtain ⟨m₁, m₂, m₃, h₁, h₂, h₃, hfree⟩ := onePage_calls
  have hrun := HeapReachable.free 4176 (.malloc 100 (.malloc 20 (.malloc
    (s := ⟨onePageHeap, onePageMem, []⟩) 1 .start h₁) h₂) h₃)
  dsimp only at hrun
  rw [if_pos hfree] at hrun
  exact ⟨_, hrun, heap_run_sound onePagePhys _ ⟨0, 0, 0⟩ onePageHeap 1 ⟨by decide, by decide⟩ rfl
    (fun x _ _ _ => onePage_clean x) _ hrun⟩

/-- After every run of calls with any arguments, and of clients that leave no magic, `kfree` takes
    back the pointers that are out and no others, and what it refuses leaves memory as it is. -/
theorem kfree_exact (phys phys' : Phys) (old heap : Region) (pages : UInt64)
    (hpages : PagesOk phys.pmm) (hinit : heapInit phys old pages = (phys', heap, true))
    (hclean : ∀ x, heap.base.toNat ≤ x → x < heap.base.toNat + heap.size.toNat → x % 16 = 8 →
      load32 phys.mem x ≠ heapBlockMagic)
    (s : HeapState) (hrun : HeapReachable ⟨heap, phys'.mem, []⟩ s) (pointer : UInt64) :
    ((kfree s.heap s.mem pointer).2 = true ↔ ∃ size, (pointer, size) ∈ s.live) ∧
      ((¬ ∃ size, (pointer, size) ∈ s.live) → kfree s.heap s.mem pointer = (s.mem, false)) := by
  obtain ⟨blocks, hinv, hall⟩ :=
    HeapInv.reachable_live ⟨_, heapInit_inv hpages hinit hclean, allLive_fresh _ _⟩ hrun
  have hcases : kfree s.heap s.mem pointer = (s.mem, false) ∨ ∃ size, (pointer, size) ∈ s.live := by
    rcases hinv.kfree_cases pointer with hno | ⟨xs, b, ys, rfl, hused, hpointer, _, _⟩
    · exact Or.inl hno
    · obtain ⟨l, hl, hat⟩ := hall (_, b) (mem_place_iff.mpr ⟨xs, ys, rfl, rfl⟩) hused
      have hsame : l.1 = pointer := UInt64.toNat_inj.mp (by rw [hat, hpointer])
      exact Or.inr ⟨l.2, hsame ▸ hl⟩
  refine ⟨⟨fun hyes => ?_, ?_⟩, hcases.resolve_right⟩
  · refine hcases.resolve_left fun hno => ?_
    rw [hno] at hyes
    cases hyes
  · rintro ⟨size, hl⟩
    exact (hinv.free_live hall hl).1

/-- The heap of one page after its first `kmalloc(1)`: the pointer is taken back, the address 16
    bytes behind it is not. -/
theorem kfree_exact_onePage :
    ∃ mem, kmalloc onePageHeap onePageMem 1 = some (mem, 4128) ∧
      (kfree onePageHeap mem 4128).2 = true ∧ kfree onePageHeap mem 4144 = (mem, false) := by
  obtain ⟨mem, -, -, h₁, -⟩ := onePage_calls
  have hexact := kfree_exact onePagePhys _ ⟨0, 0, 0⟩ onePageHeap 1 ⟨by decide, by decide⟩ rfl
    (fun x _ _ _ => onePage_clean x) _ (.malloc (s := ⟨onePageHeap, onePageMem, []⟩) 1 .start h₁)
  exact ⟨mem, h₁, (hexact 4128).1.mpr ⟨1, by simp⟩, (hexact 4144).2 (by simp)⟩

/-! ## Giving everything back -/

/-- What can be reached by calls of `kmalloc`, by giving back pointers that are out, and by
    clients that write anything into what they were given. -/
inductive LiveRun (start : HeapState) : HeapState → Prop
  | start : LiveRun start start
  | malloc {s : HeapState} {mem : Mem} {pointer : UInt64} (size : UInt64) (h : LiveRun start s)
      (hcall : kmalloc s.heap s.mem size = some (mem, pointer)) :
      LiveRun start ⟨s.heap, mem, if pointer = 0 then s.live else (pointer, size) :: s.live⟩
  | free {s : HeapState} {l : UInt64 × UInt64} (h : LiveRun start s) (hl : l ∈ s.live) :
      LiveRun start
        ⟨s.heap, (kfree s.heap s.mem l.1).1, s.live.filter fun l' => l'.1 ≠ l.1⟩
  | write {s : HeapState} (mem : Mem) (h : LiveRun start s)
      (hown : ∀ x, s.heap.base.toNat ≤ x → x < s.heap.base.toNat + s.heap.size.toNat →
        mem x ≠ s.mem x → ∃ l ∈ s.live, InPayload s l.1 x) :
      LiveRun start ⟨s.heap, mem, s.live⟩

theorem LiveRun.heap_eq {start s : HeapState} (h : LiveRun start s) : s.heap = start.heap := by
  induction h with
  | start => rfl
  | malloc _ _ _ ih | free _ _ ih | write _ _ _ ih => exact ih

theorem LiveRun.core {start s : HeapState}
    (hstart : ∃ blocks, HeapCore start blocks ∧ AllLive start.heap.base.toNat blocks start.live)
    (h : LiveRun start s) :
    ∃ blocks, HeapCore s blocks ∧ AllLive s.heap.base.toNat blocks s.live := by
  induction h with
  | start => exact hstart
  | malloc size _ hcall ih =>
    obtain ⟨blocks, hcore, hall⟩ := ih
    obtain ⟨blocks', hcore', hall', _⟩ := hcore.malloc_live hall size hcall
    exact ⟨blocks', hcore', hall'⟩
  | free _ hl ih =>
    obtain ⟨blocks, hcore, hall⟩ := ih
    obtain ⟨_, blocks', hcore', hall', _⟩ := hcore.free_live hall hl
    exact ⟨blocks', hcore', hall'⟩
  | write mem _ hown ih =>
    obtain ⟨blocks, hcore, hall⟩ := ih
    exact ⟨blocks, hcore.write hown, hall⟩

/-- `kfree` on one pointer after the other, and whether it took back all of them. -/
def kfreeAll (heap : Region) (mem : Mem) : List UInt64 → Mem × Bool
  | [] => (mem, true)
  | pointer :: rest =>
    let (mem, first) := kfree heap mem pointer
    let (mem, others) := kfreeAll heap mem rest
    (mem, first && others)

/-- All of the heap is one free block. -/
def OneFreeBlock (heap : Region) (mem : Mem) : Prop :=
  HeaderAt mem heap.base.toNat 0 0 ⟨heap.size.toNat - 32, true⟩

section Restore
variable {s : HeapState} {blocks : List Block}

/-- With nothing out there is nothing in use, and free blocks have no free neighbours. -/
theorem HeapCore.single (h : HeapCore s blocks)
    (hall : AllLive s.heap.base.toNat blocks []) : blocks = [⟨s.heap.size.toNat - 32, true⟩] := by
  have hfree : ∀ b ∈ blocks, b.free = true := by
    intro b hb
    obtain ⟨front, rest, hsplit⟩ := List.append_of_mem hb
    by_contra hused
    obtain ⟨l, hl, _⟩ :=
      hall (_, b) (mem_place_iff.mpr ⟨front, rest, hsplit, rfl⟩) (by simpa using hused)
    cases hl
  have hextent := h.extent_eq
  have hcalm := h.calm
  match blocks, h.nonempty with
  | [b], _ =>
    rw [extent_cons, extent_nil, Block.width] at hextent
    rw [← hextent, ← hfree b (by simp), show 32 + b.size + 0 - 32 = b.size by omega]
  | b :: c :: _, _ =>
    obtain ⟨hpair, _⟩ := List.isChain_cons.mp hcalm
    exact absurd ⟨hfree b (by simp), hfree c (by simp)⟩ (hpair c rfl)

theorem HeapCore.freeAll (h : HeapCore s blocks)
    (hall : AllLive s.heap.base.toNat blocks s.live) (order : List UInt64)
    (horder : order.Perm (s.live.map Prod.fst)) :
    (kfreeAll s.heap s.mem order).2 = true ∧
      HeapCore ⟨s.heap, (kfreeAll s.heap s.mem order).1, []⟩ [⟨s.heap.size.toNat - 32, true⟩] := by
  induction order generalizing s blocks with
  | nil =>
    have hlive : s.live = [] := List.map_eq_nil_iff.mp horder.nil_eq.symm
    rw [hlive] at hall
    have hsingle := h.single hall
    subst hsingle
    refine ⟨rfl, ?_⟩
    rw [← hlive]
    exact h
  | cons pointer rest ih =>
    obtain ⟨l, hl, rfl⟩ := List.mem_map.mp (horder.mem_iff.mp (List.mem_cons_self ..))
    obtain ⟨hyes, blocks', hcore, hall', _⟩ := h.free_live hall hl
    have hrest : rest.Perm ((s.live.filter fun l' => l'.1 ≠ l.1).map Prod.fst) := by
      have herase := (List.cons_perm_iff_perm_erase.mp horder).2
      have hother : (fun l' : UInt64 × UInt64 => decide (l'.1 ≠ l.1)) = (· != l.1) ∘ Prod.fst := by
        funext l'
        rw [Function.comp_apply, Bool.eq_iff_iff, decide_eq_true_iff, bne_iff_ne]
      rw [h.live_nodup.erase_eq_filter, List.filter_map] at herase
      rwa [hother]
    obtain ⟨hothers, hend⟩ := ih hcore hall' hrest
    unfold kfreeAll
    dsimp only at hothers hend ⊢
    rw [hyes, hothers]
    exact ⟨rfl, hend⟩

theorem HeapCore.single_counts (h : HeapCore s [⟨s.heap.size.toNat - 32, true⟩]) :
    heapFreeBytes s.heap s.mem = some (heapTotalBytes s.heap) := by
  have hsize := (h.fits.sizes _ (List.mem_singleton_self _)).1
  dsimp only at hsize
  have hbytes : headerBytes.toNat = 32 := rfl
  have hroom : (0 : UInt64).toNat + extent Block.width [⟨s.heap.size.toNat - 32, true⟩] <
      2 ^ 64 := by
    have := h.fits.end_lt
    rw [UInt64.toNat_zero]
    omega
  obtain ⟨free, hfree, hsum⟩ := sumFrom_spec (p := fun b => b.free)
    (fun _ _ _ _ _ hb haddr => hb.counts_free haddr) h.chained h.fits.base_pos h.link h.turns hroom
  refine hfree.trans (congrArg some (UInt64.toNat_inj.mp ?_))
  unfold heapTotalBytes
  rw [hsum, if_pos (UInt64.lt_iff_toNat_lt.mpr (by omega)),
    toNat_sub64 (by omega), hbytes]
  simp

end Restore

/-- What the next `kmalloc` answers, from the one header it reads. -/
theorem OneFreeBlock.kmalloc {heap : Region} {mem : Mem} (h : OneFreeBlock heap mem)
    (hfirst : heap.firstBlock = heap.base) (hbase : heap.base ≠ 0) (size : UInt64) :
    (Heap.kmalloc heap mem size).map Prod.snd =
      some (if alignSize size = 0 ∨ heap.size.toNat - 32 < (alignSize size).toNat then 0
        else heap.base + headerBytes) := by
  have hnext : nextAt mem heap.base = 0 := UInt64.toNat_inj.mp (h.nextAt rfl)
  have hmagic := h.magicAt rfl
  have hfree := (h.freeAt_ne_zero rfl).mpr rfl
  have hsize := h.sizeAt rfl
  unfold Heap.kmalloc
  rw [hfirst]
  by_cases hzero : alignSize size = 0
  · rw [if_pos (Or.inl hzero), if_pos (Or.inl hzero)]
    rfl
  rw [if_neg (by simp [hzero, hbase])]
  unfold Region.turns kmallocFrom
  rw [if_neg hbase]
  by_cases hroom : heap.size.toNat - 32 < (alignSize size).toNat
  · rw [if_pos (Or.inr (Or.inr (UInt64.lt_iff_toNat_lt.mpr (by rw [hsize]; exact hroom)))),
      if_pos (Or.inr hroom), hnext]
    cases heap.size.toNat / 32 <;> rfl
  · rw [if_neg, if_neg (by simp [hzero, hroom])]
    · rfl
    · rw [not_or, not_or, UInt64.lt_iff_toNat_lt, hsize]
      exact ⟨hfree, not_not.mpr hmagic, hroom⟩

/-- After any run in which only pointers that are out are given back, giving back what is left, in
    any order, leaves the one free block `heap_init` made. -/
theorem frees_restore (phys phys' : Phys) (old heap : Region) (pages : UInt64)
    (hpages : PagesOk phys.pmm) (hinit : heapInit phys old pages = (phys', heap, true))
    (s : HeapState) (hrun : LiveRun ⟨heap, phys'.mem, []⟩ s) :
    OneFreeBlock heap phys'.mem ∧
    (∀ order : List UInt64, order.Perm (s.live.map Prod.fst) →
      (kfreeAll heap s.mem order).2 = true ∧
      OneFreeBlock heap (kfreeAll heap s.mem order).1 ∧
      heapFreeBytes heap (kfreeAll heap s.mem order).1 = some (heapTotalBytes heap) ∧
      ∀ size, (kmalloc heap (kfreeAll heap s.mem order).1 size).map Prod.snd =
        (kmalloc heap phys'.mem size).map Prod.snd) := by
  have hfresh : HeapCore ⟨heap, phys'.mem, []⟩ [⟨heap.size.toNat - 32, true⟩] :=
    heapInit_core hpages hinit
  have hone : OneFreeBlock heap phys'.mem := hfresh.chained.1
  refine ⟨hone, fun order horder => ?_⟩
  obtain ⟨blocks, hcore, hall⟩ := hrun.core ⟨_, hfresh, allLive_fresh _ _⟩
  obtain ⟨hyes, hend⟩ := hcore.freeAll hall order horder
  have hheap : s.heap = heap := hrun.heap_eq
  rw [hheap] at hyes hend
  have hlast : OneFreeBlock heap (kfreeAll heap s.mem order).1 := hend.chained.1
  refine ⟨hyes, hlast, hend.single_counts, fun size => ?_⟩
  rw [hlast.kmalloc hfresh.first hfresh.base_ne_zero, hone.kmalloc hfresh.first hfresh.base_ne_zero]

/-- Three blocks are taken and given back in another order. -/
theorem frees_restore_onePage :
    ∃ mem, LiveRun ⟨onePageHeap, onePageMem, []⟩
        ⟨onePageHeap, mem, [(4240, 100), (4176, 20), (4128, 1)]⟩ ∧
      OneFreeBlock onePageHeap (kfreeAll onePageHeap mem [4176, 4240, 4128]).1 ∧
      heapFreeBytes onePageHeap (kfreeAll onePageHeap mem [4176, 4240, 4128]).1 = some 4064 := by
  obtain ⟨m₁, m₂, m₃, h₁, h₂, h₃, -⟩ := onePage_calls
  have hrun : LiveRun ⟨onePageHeap, onePageMem, []⟩
      ⟨onePageHeap, m₃, [(4240, 100), (4176, 20), (4128, 1)]⟩ :=
    .malloc 100 (.malloc 20 (.malloc (s := ⟨onePageHeap, onePageMem, []⟩) 1 .start h₁) h₂) h₃
  obtain ⟨_, hfrees⟩ := frees_restore onePagePhys _ ⟨0, 0, 0⟩ onePageHeap 1 ⟨by decide, by decide⟩
    rfl _ hrun
  obtain ⟨_, hone, hfree, _⟩ := hfrees [4176, 4240, 4128] (by
    show [4176, 4240, 4128].Perm [4240, 4176, 4128]
    decide)
  exact ⟨m₃, hrun, hone, hfree⟩

end ArgusOs.Heap
