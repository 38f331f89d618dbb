/-
  Which block `kmalloc` takes.

  `blockList` is what a walk along `next` sees: the address, the size and the state of every
  block. Over it the heap is an exact first-fit allocator: a request is refused only if no free
  block is large enough, the lowest one that is gets cut to the size asked for, and giving the
  pointer back at once restores the list.
-/
import ArgusOs.Heap.Liveness

namespace ArgusOs.Heap

open Lib Memory

/-! ## The observable blocks -/

/-- The walk along `next` from a block on. -/
def blocksFrom (mem : Mem) : Nat → UInt64 → Option (List (Nat × Block))
  | 0, block => if block = 0 then some [] else none
  | turns + 1, block =>
    if block = 0 then some []
    else (blocksFrom mem turns (nextAt mem block)).map
      ((block.toNat, ⟨(sizeAt mem block).toNat, freeAt mem block ≠ 0⟩) :: ·)

def blockList (heap : Region) (mem : Mem) : Option (List (Nat × Block)) :=
  blocksFrom mem heap.turns heap.firstBlock

variable {blocks : List Block}

theorem blocksFrom_spec {mem : Mem} {previous a turns : Nat} {block : UInt64}
    (h : Chained mem 0 previous a blocks) (ha : 0 < a) (hblock : block.toNat = linkTo 0 a blocks)
    (hturns : blocks.length ≤ turns) :
    blocksFrom mem turns block = some (place Block.width a blocks) := by
  induction blocks generalizing previous a turns block with
  | nil =>
    have hzero : block = 0 := UInt64.toNat_inj.mp hblock
    cases turns <;> exact if_pos hzero
  | cons b rest ih =>
    obtain ⟨turns, rfl⟩ : ∃ n, turns = n + 1 := ⟨turns - 1, by simp at hturns; omega⟩
    obtain ⟨hne, haddr⟩ := ne_zero_of_link ha hblock
    obtain ⟨hb, hrest⟩ := h
    have hfree : decide (freeAt mem block ≠ 0) = b.free := by
      rw [Bool.eq_iff_iff, decide_eq_true_iff, hb.freeAt_ne_zero haddr]
    unfold blocksFrom
    rw [if_neg hne, ih hrest (by omega) (hb.nextAt haddr) (by simpa using hturns), haddr,
      hb.sizeAt haddr, hfree]
    rfl

theorem HeapCore.blockList_eq {s : HeapState} (h : HeapCore s blocks) :
    blockList s.heap s.mem = some (place Block.width s.heap.base.toNat blocks) :=
  blocksFrom_spec h.chained h.fits.base_pos h.link h.turns

/-! ## Taking a block and giving it back -/

theorem released_eq {xs ys ys' : List Block} {b c : Block}
    (hmerge : mergeHead (⟨c.size, true⟩ :: ys') = b :: ys)
    (hlast : ∀ p ∈ xs.getLast?, p.free = false) : released xs c ys' = xs ++ b :: ys := by
  unfold released
  rw [hmerge]
  split
  · next hnone =>
    rw [List.getLast?_eq_none_iff] at hnone
    rw [hnone]
    rfl
  · next p hp =>
    rw [hlast p hp, if_neg (by decide)]

/-- A free block has no free neighbours, so it is as it was once it is given back. -/
theorem released_taken {xs ys : List Block} {b : Block} {size : Nat}
    (hcalm : Calm (xs ++ b :: ys)) (hfree : b.free = true) :
    ∃ c rest, taken size b = c :: rest ∧ released xs c (rest ++ ys) = xs ++ b :: ys := by
  rw [Calm, List.isChain_append, List.isChain_cons] at hcalm
  obtain ⟨-, ⟨hnext, -⟩, hlast⟩ := hcalm
  have hprevious : ∀ p ∈ xs.getLast?, p.free = false := by
    intro p hp
    have hnot := hlast p hp b rfl
    unfold NotBothFree at hnot
    simpa [hfree] using hnot
  have hb : b = ⟨b.size, true⟩ := by rw [← hfree]
  unfold taken
  split
  · next hsplit =>
    refine ⟨_, _, rfl, released_eq ?_ hprevious⟩
    have hwhole : size + 32 + (b.size - size - 32) = b.size := by omega
    simp only [List.cons_append, List.nil_append, mergeHead, if_true, hwhole]
    rw [← hb]
  · refine ⟨_, _, rfl, released_eq ?_ hprevious⟩
    rcases mergeHead_cases ⟨b.size, true⟩ ys with ⟨heq, -⟩ | ⟨y, rest, rfl, hy, -⟩
    · rw [List.nil_append, heq, ← hb]
    · exact absurd ⟨hfree, hy⟩ (hnext y rfl)

section Frame
variable {mem : Mem} {base : Nat} {xs ys : List Block} {b : Block} {block size : UInt64} {x : Nat}

theorem linkBack_outside {link : UInt64} (h : link ≠ 0 → x < link.toNat + 8 ∨ link.toNat + 16 ≤ x) :
    linkBack mem link block x = mem x := by
  unfold linkBack
  split
  · rfl
  · next hne =>
    unfold setPrevious
    exact store64_outside (by have := h hne; omega)

/-- Only the two headers and the link back of the next block are written by a split. -/
theorem splitBlock_outside (hend : block.toNat + 32 + size.toNat < 2 ^ 64)
    (hmine : x < block.toNat ∨ block.toNat + 32 ≤ x)
    (hsplit : x < block.toNat + 32 + size.toNat ∨ block.toNat + 64 + size.toNat ≤ x)
    (hlink : nextAt mem block ≠ 0 →
      x < (nextAt mem block).toNat + 8 ∨ (nextAt mem block).toNat + 16 ≤ x) :
    splitBlock mem block size x = mem x := by
  have hplace : (block + headerBytes + size).toNat = block.toNat + 32 + size.toNat := by
    rw [UInt64.toNat_add, UInt64.toNat_add, show headerBytes.toNat = 32 from rfl]
    omega
  unfold splitBlock
  generalize block + headerBytes + size = split at hplace
  have hnext : nextAt (writeHeader mem split (sizeAt mem block - size - headerBytes) block
      (nextAt mem block)) split = nextAt mem block := by
    apply UInt64.toNat_inj.mp
    exact writeHeader_headerAt.next
  rw [hnext]
  unfold setSize setNext
  rw [store64_outside (by omega), store64_outside (by omega), linkBack_outside hlink,
    writeHeader_outside (by omega)]

/-- Taking a block touches the block, and of the next header at most the link back. -/
theorem takeBlock_frame (hfits : Fits base (xs ++ b :: ys))
    (h : Chained mem 0 0 base (xs ++ b :: ys))
    (hblock : block.toNat = base + extent Block.width xs) (hsize : size.toNat ≤ b.size)
    (hx : takeBlock mem block size x ≠ mem x) :
    (block.toNat ≤ x ∧ x < block.toNat + 32 + b.size) ∨
      (ys ≠ [] ∧ block.toNat + 32 + b.size + 8 ≤ x ∧ x < block.toNat + 32 + b.size + 16) := by
  obtain ⟨_, hb, _⟩ := h.middle
  obtain ⟨_, _, _, hend⟩ := hfits.middle
  have hbase := hfits.base_pos
  have hbase' := hfits.base_aligned
  have hlink : nextAt mem block ≠ 0 →
      ys ≠ [] ∧ (nextAt mem block).toNat = block.toNat + 32 + b.size := by
    intro hne
    have hnext := hb.nextAt hblock
    cases ys with
    | nil => exact absurd (UInt64.toNat_inj.mp hnext) hne
    | cons y ys =>
      rw [linkTo_cons, Block.width] at hnext
      exact ⟨List.cons_ne_nil _ _, by omega⟩
  by_contra hout
  rw [not_or] at hout
  apply hx
  unfold takeBlock setFree
  rw [store32_outside (by omega)]
  split
  · next hroom =>
    rw [splits_iff hfits h hblock hsize] at hroom
    refine splitBlock_outside (by omega) (by omega) (by omega) fun hne => ?_
    obtain ⟨hys, hat⟩ := hlink hne
    have hnot := hout.2
    rw [not_and] at hnot
    have := hnot hys
    omega
  · rfl

end Frame

/-! ## First fit -/

/-- The two cases of what becomes of the block at `a` when the first `size` bytes are asked for. -/
theorem place_taken (a size : Nat) (b : Block) :
    place Block.width a (taken size b) =
      if size + 48 ≤ b.size then
        [(a, ⟨size, false⟩), (a + 32 + size, ⟨b.size - size - 32, true⟩)]
      else [(a, ⟨b.size, false⟩)] := by
  unfold taken
  split
  · rw [place_cons, place_cons, place_nil, Block.width, ← Nat.add_assoc]
  · rw [place_cons, place_nil]

/-- The blocks of a list lie one behind the other, so what comes first lies lowest. -/
theorem place_first_le {a : Nat} {xs ys : List Block} {b : Block} {e : Nat × Block}
    (fits : Block → Prop) (hfirst : ∀ c ∈ xs, ¬ fits c) (hfits : fits e.2)
    (he : e ∈ place Block.width a (xs ++ b :: ys)) : a + extent Block.width xs ≤ e.1 := by
  rw [place_append, place_cons, List.mem_append, List.mem_cons] at he
  rcases he with hx | rfl | hy
  · obtain ⟨ws, zs, rfl, -⟩ := mem_place_iff.mp hx
    exact absurd hfits (hfirst e.2 (by simp))
  · exact le_refl _
  · exact le_trans (Nat.le_add_right _ _) (place_bounds hy).1

/-- A request from a heap in order: either no free block is large enough and nothing happens, or
    the first that is gets taken, and giving it back at once restores the blocks. -/
theorem HeapCore.first_fit {s : HeapState} (h : HeapCore s blocks) (n : UInt64) :
    (kmalloc s.heap s.mem n = some (s.mem, 0) ∧
      (alignSize n = 0 ∨ ∀ b ∈ blocks, b.free = true → b.size < (alignSize n).toNat)) ∨
      ∃ xs b ys found, blocks = xs ++ b :: ys ∧ b.free = true ∧ alignSize n ≠ 0 ∧
        (alignSize n).toNat ≤ b.size ∧ (∀ c ∈ xs, c.free = true → c.size < (alignSize n).toNat) ∧
        found.toNat = s.heap.base.toNat + extent Block.width xs ∧
        found + headerBytes ≠ 0 ∧ (found + headerBytes).toNat = found.toNat + 32 ∧
        kmalloc s.heap s.mem n = some (takeBlock s.mem found (alignSize n), found + headerBytes) ∧
        blockList s.heap (takeBlock s.mem found (alignSize n)) =
          some (place Block.width s.heap.base.toNat (xs ++ (taken (alignSize n).toNat b ++ ys))) ∧
        (kfree s.heap (takeBlock s.mem found (alignSize n)) (found + headerBytes)).2 = true ∧
        blockList s.heap
            (kfree s.heap (takeBlock s.mem found (alignSize n)) (found + headerBytes)).1 =
          some (place Block.width s.heap.base.toNat (xs ++ b :: ys)) := by
  rcases h.kmalloc_cases n with
    hnone | ⟨xs, b, ys, found, rfl, hfree, hfound, hne, halign, hsize, hle, hfirst, hsome⟩
  · exact Or.inl hnone
  · obtain ⟨hcore, hpointer⟩ := h.take rfl hfree hfound hne halign hsize hle
    obtain ⟨_, _, _, hend⟩ := h.fits.middle
    have hbehind : (found + headerBytes).toNat = found.toNat + 32 := toNat_behind (by omega)
    obtain ⟨_, _, _, _, _, _, hkfree⟩ :=
      hcore.kfree_live (l := (found + headerBytes, n)) (List.mem_cons_self ..)
    have hback : found + headerBytes - headerBytes = found := by
      apply UInt64.toNat_inj.mp
      rw [toNat_sub64 ?_, hbehind]
      · rfl
      · rw [hbehind]
        exact Nat.le_add_left 32 _
    obtain ⟨c, rest, htaken, hreleased⟩ := released_taken h.calm hfree
    have hrestored := hcore.blockList_eq
    rw [htaken, List.cons_append] at hcore
    have hplace : (found + headerBytes).toNat = s.heap.base.toNat + extent Block.width xs + 32 := by
      rw [hbehind, hfound]
    have hgiven := hcore.give hplace hfound
    rw [hreleased] at hgiven
    refine Or.inr ⟨xs, b, ys, found, rfl, hfree, fun hz => hne (by rw [hz]; rfl), hsize, hfirst,
      hfound, hpointer, hbehind, hsome, hrestored, ?_, ?_⟩
    · rw [hkfree]
    · rw [hkfree, hback]
      exact hgiven.blockList_eq

/-- In every state that calls of `kmalloc` and of `kfree` on pointers that are out lead to, a
    request is refused only if it is empty, overflows or no free block is large enough. Otherwise
    the lowest block that is large enough is taken, cut if 48 bytes or more are left, and of the
    other blocks at most a link back changes. Giving the pointer back at once restores the list. -/
theorem kmalloc_first_fit (phys phys' : Phys) (old heap : Region) (pages : UInt64)
    (hpages : PagesOk phys.pmm) (hinit : heapInit phys old pages = (phys', heap, true))
    (s : HeapState) (hrun : LiveRun ⟨heap, phys'.mem, []⟩ s) (n : UInt64) :
    ∃ blocks mem pointer, blockList heap s.mem = some blocks ∧
      kmalloc heap s.mem n = some (mem, pointer) ∧
      (pointer = 0 ↔ n = 0 ∨ 2 ^ 64 ≤ roundUp n.toNat ∨
        ∀ e ∈ blocks, e.2.free = true → e.2.size < roundUp n.toNat) ∧
      (pointer = 0 → mem = s.mem) ∧
      (pointer ≠ 0 → ∃ front a b back, blocks = front ++ (a, b) :: back ∧
        b.free = true ∧ roundUp n.toNat ≤ b.size ∧
        (∀ e ∈ blocks, e.2.free = true → roundUp n.toNat ≤ e.2.size → a ≤ e.1) ∧
        pointer.toNat = a + 32 ∧
        blockList heap mem = some (front ++
          (if roundUp n.toNat + 48 ≤ b.size then
            [(a, ⟨roundUp n.toNat, false⟩),
              (a + 32 + roundUp n.toNat, ⟨b.size - roundUp n.toNat - 32, true⟩)]
          else [(a, ⟨b.size, false⟩)]) ++ back) ∧
        (∀ x, mem x ≠ s.mem x → (a ≤ x ∧ x < a + 32 + b.size) ∨
          (back ≠ [] ∧ a + 32 + b.size + 8 ≤ x ∧ x < a + 32 + b.size + 16)) ∧
        (kfree heap mem pointer).2 = true ∧
        blockList heap (kfree heap mem pointer).1 = some blocks) := by
  obtain ⟨blocks, hcore, -⟩ := hrun.core ⟨_, heapInit_core hpages hinit, allLive_fresh _ _⟩
  obtain rfl : s.heap = heap := hrun.heap_eq
  have hzero : alignSize n = 0 ↔ n = 0 ∨ 2 ^ 64 ≤ roundUp n.toNat := by
    rw [← UInt64.toNat_inj, ← UInt64.toNat_inj, alignSize_toNat]
    unfold roundUp
    split <;> simp <;> omega
  have hrounded : alignSize n ≠ 0 → (alignSize n).toNat = roundUp n.toNat := by
    intro hne
    rw [alignSize_toNat, if_neg fun hbig => hne (hzero.mpr (Or.inr hbig))]
  have hlist := hcore.blockList_eq
  rcases hcore.first_fit n with ⟨hnone, hwhy⟩ |
    ⟨xs, b, ys, found, rfl, hfree, hne, hsize, hfirst, hfound, hpointer, hbehind, hsome, hafter,
      htaken, hrestored⟩
  · refine ⟨_, _, _, hlist, hnone, iff_of_true rfl ?_, fun _ => rfl, fun h => absurd rfl h⟩
    rw [← or_assoc, ← hzero]
    refine or_iff_not_imp_left.mpr fun hne e he hfree => ?_
    rw [← hrounded hne]
    obtain ⟨xs, ys, rfl, -⟩ := mem_place_iff.mp he
    exact hwhy.resolve_left hne e.2 (by simp) hfree
  · rw [hrounded hne] at hsize hfirst hafter
    have hmem : (found.toNat, b) ∈ place Block.width s.heap.base.toNat (xs ++ b :: ys) :=
      mem_place_iff.mpr ⟨xs, ys, rfl, hfound⟩
    refine ⟨_, _, _, hlist, hsome, iff_of_false hpointer ?_, fun hz => absurd hz hpointer,
      fun _ => ?_⟩
    · rw [← or_assoc, ← hzero, not_or]
      exact ⟨hne, fun hall => absurd (hall _ hmem hfree) (Nat.not_lt.mpr hsize)⟩
    · refine ⟨place Block.width s.heap.base.toNat xs, found.toNat, b,
        place Block.width (found.toNat + b.width) ys, ?_, hfree, hsize, ?_, hbehind, ?_, ?_, htaken,
        hrestored⟩
      · rw [place_append, place_cons, ← hfound]
      · intro e he hefree hesize
        rw [hfound]
        exact place_first_le (fun c => c.free = true ∧ roundUp n.toNat ≤ c.size)
          (fun c hc hfits => absurd (hfirst c hc hfits.1) (Nat.not_lt.mpr hfits.2))
            ⟨hefree, hesize⟩ he
      · rw [hafter, ← place_taken, place_append, place_append, ← hfound, extent_taken, extent_cons,
          extent_nil, Nat.add_zero, List.append_assoc]
      · intro x hx
        rcases takeBlock_frame hcore.fits hcore.chained hfound
          (by rw [hrounded hne]; exact hsize) hx with
          hmine | ⟨hys, hlink⟩
        · exact Or.inl hmine
        · refine Or.inr ⟨?_, hlink⟩
          cases ys with
          | nil => exact absurd rfl hys
          | cons y ys => exact List.cons_ne_nil _ _

/-- The heap of one page: a request for one byte is served, and giving the byte back restores the
    one block there was. -/
theorem kmalloc_first_fit_onePage :
    ∃ mem, kmalloc onePageHeap onePageMem 1 = some (mem, 4128) ∧
      blockList onePageHeap (kfree onePageHeap mem 4128).1 = some [(4096, ⟨4064, true⟩)] := by
  have hlist : blockList onePageHeap onePageMem = some [(4096, ⟨4064, true⟩)] := rfl
  obtain ⟨m₁, -, -, h₁, -⟩ := onePage_calls
  obtain ⟨blocks, mem, pointer, hblocks, hreturn, -, -, hserved⟩ :=
    kmalloc_first_fit onePagePhys (heapInit onePagePhys ⟨0, 0, 0⟩ 1).1 ⟨0, 0, 0⟩ onePageHeap 1
      ⟨by decide, by decide⟩ rfl _ .start 1
  rw [h₁, Option.some.injEq, Prod.mk.injEq] at hreturn
  obtain ⟨rfl, rfl⟩ := hreturn
  obtain ⟨_, _, _, _, -, -, -, -, -, -, -, -, hrestored⟩ := hserved (by decide)
  exact ⟨m₁, h₁, by rw [hrestored, ← hblocks, hlist]⟩

end ArgusOs.Heap
