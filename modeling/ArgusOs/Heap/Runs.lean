/-
  The heap over whole runs.

  `HeapReachable` is what can be reached from a fresh heap by calls of `kmalloc` and `kfree`
  with any arguments and by clients that write into what they were given; `live` records the
  pointers that were handed out and not given back. `HeapInv` ties such a state to a list of
  blocks, and `HeapSound` is what it promises.
-/
import ArgusOs.Heap.Layout
import ArgusOs.Heap.Validate
import ArgusOs.Memory.PmmInit

namespace ArgusOs.Heap

open Lib Memory

variable {mem : Mem} {b : Block} {blocks xs ys : List Block} {a base previous : Nat}
  {e : Nat × Block} {block found pages : UInt64} {heap old : Region} {l : UInt64 × UInt64}
  {phys phys' : Phys}

/-! ## No two free neighbours -/

/-- Of two neighbours at most one is free. -/
def NotBothFree (b c : Block) : Prop := ¬ (b.free = true ∧ c.free = true)

abbrev Calm (blocks : List Block) : Prop := blocks.IsChain NotBothFree

theorem calm_taken (size : Nat) (hb : b.free = true) (h : Calm (xs ++ b :: ys)) :
    Calm (xs ++ (taken size b ++ ys)) := by
  simp only [Calm, List.isChain_append, List.isChain_cons, List.head?_cons, Option.mem_def,
    Option.some.injEq, forall_eq'] at h
  obtain ⟨hxs, ⟨hnext, hys⟩, hlast⟩ := h
  have hused : ∀ (s : Nat) (c : Block), NotBothFree ⟨s, false⟩ c := fun s c hc => by simp at hc
  have husedRight : ∀ (c : Block) (s : Nat), NotBothFree c ⟨s, false⟩ := fun c s hc => by simp at hc
  -- the part that is left over is free, as the block was before
  have hleft : ∀ (s : Nat), ∀ y ∈ ys.head?, NotBothFree ⟨s, true⟩ y := by
    intro s y hy hc
    exact hnext y hy ⟨hb, hc.2⟩
  unfold taken
  split
  · simp only [Calm, List.isChain_append, List.cons_append, List.nil_append, List.isChain_cons,
      List.head?_cons, Option.mem_def, Option.some.injEq, forall_eq']
    exact ⟨hxs, ⟨hused _ _, hleft _, hys⟩, fun x _ => husedRight _ _⟩
  · simp only [Calm, List.isChain_append, List.cons_append, List.nil_append, List.isChain_cons,
      List.head?_cons, Option.mem_def, Option.some.injEq, forall_eq']
    exact ⟨hxs, ⟨fun y _ => hused _ _, hys⟩, fun x _ => husedRight _ _⟩

/-- A free block that has taken in a free neighbour has none left. -/
theorem calm_mergeHead (h : Calm ys) :
    Calm (mergeHead (b :: ys)) ∧ ∃ c rest, mergeHead (b :: ys) = c :: rest ∧ c.free = b.free := by
  rcases mergeHead_cases b ys with ⟨heq, hhead⟩ | ⟨y, rest, rfl, hy, heq⟩
  · rw [heq]
    refine ⟨List.isChain_cons.mpr ⟨fun y hy hc => ?_, h⟩, b, ys, rfl, rfl⟩
    rw [hhead y hy] at hc
    exact absurd hc.2 (by simp)
  · rw [heq]
    obtain ⟨hnext, hrest⟩ := List.isChain_cons.mp h
    refine ⟨List.isChain_cons.mpr ⟨fun z hz hc => ?_, hrest⟩, _, rest, rfl, rfl⟩
    exact hnext z hz ⟨hy, hc.2⟩

theorem calm_released (h : Calm (xs ++ b :: ys)) : Calm (released xs b ys) := by
  rw [Calm, List.isChain_append, List.isChain_cons] at h
  obtain ⟨hxs, ⟨_, hys⟩, _⟩ := h
  obtain ⟨htail, _⟩ := calm_mergeHead (b := ⟨b.size, true⟩) hys
  rcases List.eq_nil_or_concat xs with rfl | ⟨front, p, rfl⟩
  · rw [released_nil]
    exact htail
  · rw [List.concat_eq_append] at hxs ⊢
    rw [List.isChain_append] at hxs
    obtain ⟨hfront, _, hlink⟩ := hxs
    have hp : ∀ x ∈ front.getLast?, NotBothFree x p := fun x hx => hlink x hx p rfl
    rw [released_concat]
    split
    · obtain ⟨hmerged, c, rest, heq, hc⟩ := calm_mergeHead (b := p) htail
      refine List.isChain_append.mpr ⟨hfront, hmerged, fun x hx y hy => ?_⟩
      rw [heq, List.head?_cons, Option.mem_some_iff] at hy
      subst hy
      unfold NotBothFree
      rw [hc]
      exact hp x hx
    · next hpf =>
      refine List.isChain_append.mpr ⟨hfront, List.isChain_cons.mpr ⟨fun y _ hc => hpf hc.1, htail⟩,
        ?_⟩
      intro x hx y hy
      rw [List.head?_cons, Option.mem_some_iff] at hy
      exact hy ▸ hp x hx

/-! ## Blocks that stay -/

/-- Joining free blocks leaves the blocks in use behind them. -/
theorem mem_place_mergeHead (hb : b.free = true) (hused : e.2.free = false) :
    e ∈ place Block.width a (mergeHead (b :: ys)) ↔ e ∈ place Block.width (a + b.width) ys := by
  have hfree : ∀ {x : Nat} {c : Block}, c.free = true → e ≠ (x, c) := by
    rintro x c hc rfl
    rw [hc] at hused
    cases hused
  rcases mergeHead_cases b ys with ⟨heq, _⟩ | ⟨y, rest, rfl, hy, heq⟩
  · rw [heq, place_cons, List.mem_cons]
    exact or_iff_right (hfree hb)
  · have hmerged : a + (⟨b.size + 32 + y.size, b.free⟩ : Block).width = a + b.width + y.width := by
      simp only [Block.width]
      omega
    rw [heq, place_cons, place_cons, List.mem_cons, List.mem_cons, or_iff_right (hfree hy), hmerged]
    exact or_iff_right (hfree hb)

/-- What is in use after a block was given back is what was in use besides it. -/
theorem mem_place_released (hused : e.2.free = false) :
    e ∈ place Block.width base (released xs b ys) ↔
      e ∈ place Block.width base xs ∨
        e ∈ place Block.width (base + extent Block.width xs + b.width) ys := by
  have hafter : ∀ {a : Nat}, e ∈ place Block.width a (mergeHead (⟨b.size, true⟩ :: ys)) ↔
      e ∈ place Block.width (a + b.width) ys :=
    mem_place_mergeHead (b := ⟨b.size, true⟩) rfl hused
  rcases List.eq_nil_or_concat xs with rfl | ⟨front, p, rfl⟩
  · rw [released_nil, hafter, place_nil, extent_nil, Nat.add_zero]
    simp
  · rw [List.concat_eq_append, released_concat, extent_append, ← Nat.add_assoc, place_append,
      List.mem_append, extent_cons, extent_nil, Nat.add_zero, place_cons, place_nil,
      List.mem_singleton]
    split
    · next hp =>
      have hne : e ≠ (base + extent Block.width front, p) := by
        rintro rfl
        rw [hp] at hused
        cases hused
      rw [place_append, List.mem_append, mem_place_mergeHead hp hused, hafter, or_iff_left hne]
    · rw [place_append, List.mem_append, place_cons, List.mem_cons, hafter, or_assoc]

theorem Fits.released (h : Fits base (xs ++ b :: ys)) :
    Fits base (released xs b ys) ∧
      extent Block.width (released xs b ys) = extent Block.width (xs ++ b :: ys) := by
  have hfits := (h.setFree true).mergeHead
  have hextent : extent Block.width (⟨b.size, true⟩ :: ys) = extent Block.width (b :: ys) := by
    simp [Block.width]
  rcases List.eq_nil_or_concat xs with rfl | ⟨front, p, rfl⟩
  · rw [released_nil, extent_mergeHead, hextent]
    exact ⟨hfits, rfl⟩
  · rw [List.concat_eq_append] at *
    rw [released_concat]
    rw [List.append_assoc, List.singleton_append] at hfits ⊢
    split
    · refine ⟨hfits.mergeHead, ?_⟩
      rw [extent_append, extent_mergeHead, extent_cons, extent_mergeHead, hextent, extent_append,
        extent_cons _ p]
    · refine ⟨hfits, ?_⟩
      rw [extent_append, extent_cons, extent_mergeHead, hextent, extent_append, extent_cons _ p]

/-! ## The loops -/

/-- The next multiple of 16. -/
def roundUp (n : Nat) : Nat := (n + 15) / 16 * 16

/-- `align_size` rounds up, and answers 0 where that overflows. -/
theorem alignSize_toNat (n : UInt64) :
    (alignSize n).toNat = if 2 ^ 64 ≤ roundUp n.toNat then 0 else roundUp n.toNat := by
  have hn := n.toNat_lt
  unfold alignSize roundUp
  by_cases hbig : n > 0xFFFFFFFFFFFFFFFF - (heapAlignment - 1)
  · rw [if_pos hbig, if_pos]
    · rfl
    · rw [gt_iff_lt, UInt64.lt_iff_toNat_lt,
        show (0xFFFFFFFFFFFFFFFF - (heapAlignment - 1) : UInt64).toNat =
          2 ^ 64 - 16 from rfl] at hbig
      omega
  · rw [if_neg hbig]
    rw [gt_iff_lt, UInt64.lt_iff_toNat_lt,
      show (0xFFFFFFFFFFFFFFFF - (heapAlignment - 1) : UInt64).toNat = 2 ^ 64 - 16 from rfl] at hbig
    have hsum : (n + heapAlignment - 1).toNat = n.toNat + 15 := by
      rw [UInt64.toNat_sub, UInt64.toNat_add, show heapAlignment.toNat = 16 from rfl,
        show (1 : UInt64).toNat = 1 from rfl]
      omega
    rw [toNat_and_field _ _ 4 60 (by decide), hsum, if_neg (by omega)]
    omega

theorem alignSize_spec {n : UInt64} (h : alignSize n ≠ 0) :
    n.toNat ≤ (alignSize n).toNat ∧ (alignSize n).toNat % 16 = 0 := by
  have hne : (alignSize n).toNat ≠ 0 := fun hz => h (UInt64.toNat_inj.mp hz)
  rw [alignSize_toNat] at hne ⊢
  split at hne
  · exact absurd rfl hne
  · next hfits =>
    rw [if_neg hfits]
    unfold roundUp
    omega

theorem length_le_extent (blocks : List Block) :
    32 * blocks.length ≤ extent Block.width blocks := by
  induction blocks with
  | nil => simp
  | cons b rest ih =>
    rw [List.length_cons, extent_cons, Block.width]
    omega

theorem ne_zero_of_link {rest : List Block} (ha : 0 < a)
    (h : block.toNat = linkTo 0 a (b :: rest)) : block ≠ 0 ∧ block.toNat = a := by
  rw [linkTo_cons] at h
  refine ⟨?_, h⟩
  rintro rfl
  simp at h
  omega

/-- The search goes along the list and takes the first block that is free and large enough. -/
theorem kmallocFrom_spec (size : UInt64) {turns : Nat} (h : Chained mem 0 previous a blocks)
    (ha : 0 < a) (hblock : block.toNat = linkTo 0 a blocks) (hturns : blocks.length ≤ turns) :
    (kmallocFrom mem size turns block = some (mem, 0) ∧
      ∀ b ∈ blocks, b.free = true → b.size < size.toNat) ∨
      ∃ xs b ys found, blocks = xs ++ b :: ys ∧ b.free = true ∧ size.toNat ≤ b.size ∧
        found.toNat = a + extent Block.width xs ∧
        (∀ c ∈ xs, c.free = true → c.size < size.toNat) ∧
        kmallocFrom mem size turns block =
          some (takeBlock mem found size, found + headerBytes) := by
  induction blocks generalizing previous a turns block with
  | nil =>
    have hzero : block = 0 := UInt64.toNat_inj.mp hblock
    refine Or.inl ⟨?_, by simp⟩
    cases turns <;> exact if_pos hzero
  | cons b rest ih =>
    obtain ⟨turns, rfl⟩ : ∃ n, turns = n + 1 := ⟨turns - 1, by simp at hturns; omega⟩
    obtain ⟨hne, haddr⟩ := ne_zero_of_link ha hblock
    obtain ⟨hb, hrest⟩ := h
    have hsize := hb.sizeAt haddr
    have hnext := hb.nextAt haddr
    unfold kmallocFrom
    rw [if_neg hne]
    split
    · next hskip =>
      -- the block is passed over: it is in use or too small
      have hsmall : b.free = true → b.size < size.toNat := by
        intro hfree
        rcases hskip with hused | hmagic | hsmall
        · exact absurd hused ((hb.freeAt_ne_zero haddr).mpr hfree)
        · exact absurd (hb.magicAt haddr) hmagic
        · rwa [UInt64.lt_iff_toNat_lt, hsize] at hsmall
      rcases ih hrest (by omega) hnext (by simpa using hturns) with
        ⟨hnone, hall⟩ | ⟨xs, c, ys, found, hsplit, hc, hfits, hfound, hfirst, hsome⟩
      · exact Or.inl ⟨hnone, List.forall_mem_cons.mpr ⟨hsmall, hall⟩⟩
      · refine Or.inr ⟨b :: xs, c, ys, found, by rw [hsplit]; rfl, hc, hfits, ?_,
          List.forall_mem_cons.mpr ⟨hsmall, hfirst⟩, hsome⟩
        rw [hfound, extent_cons, Nat.add_assoc]
    · next hgo =>
      rw [not_or, not_or, UInt64.lt_iff_toNat_lt, hsize] at hgo
      exact Or.inr ⟨[], b, rest, block, rfl, (hb.freeAt_ne_zero haddr).mp hgo.1, by omega,
        by simpa using haddr, by simp, rfl⟩

theorem sumFrom_spec {counts : UInt64 → Bool} {p : Block → Bool}
    (hcounts : ∀ block a previous next b, HeaderAt mem a previous next b → block.toNat = a →
      counts block = p b) {turns : Nat} {total : UInt64} (h : Chained mem 0 previous a blocks)
    (ha : 0 < a) (hblock : block.toNat = linkTo 0 a blocks) (hturns : blocks.length ≤ turns)
    (hroom : total.toNat + extent Block.width blocks < 2 ^ 64) :
    ∃ sum, sumFrom mem counts turns block total = some sum ∧
      sum.toNat = total.toNat + ((blocks.filter p).map Block.size).sum := by
  induction blocks generalizing previous a turns block total with
  | nil =>
    have hzero : block = 0 := UInt64.toNat_inj.mp hblock
    refine ⟨total, ?_, by simp⟩
    cases turns <;> exact if_pos hzero
  | cons b rest ih =>
    obtain ⟨turns, rfl⟩ : ∃ n, turns = n + 1 := ⟨turns - 1, by simp at hturns; omega⟩
    obtain ⟨hne, haddr⟩ := ne_zero_of_link ha hblock
    obtain ⟨hb, hrest⟩ := h
    have hsize := hb.sizeAt haddr
    have hnext := hb.nextAt haddr
    rw [extent_cons, Block.width] at hroom
    unfold sumFrom
    rw [if_neg hne, hcounts block _ _ _ _ hb haddr]
    have hadd : (total + sizeAt mem block).toNat = total.toNat + b.size := by
      rw [UInt64.toNat_add, hsize]
      omega
    cases hp : p b with
    | true =>
      obtain ⟨sum, hsum, hval⟩ := ih hrest (by omega) hnext (by simpa using hturns)
        (show (total + sizeAt mem block).toNat + extent Block.width rest < 2 ^ 64 by omega)
      refine ⟨sum, hsum, ?_⟩
      rw [hval, hadd, List.filter_cons_of_pos hp, List.map_cons, List.sum_cons, Nat.add_assoc]
    | false =>
      obtain ⟨sum, hsum, hval⟩ := ih hrest (by omega) hnext (by simpa using hturns)
        (show total.toNat + extent Block.width rest < 2 ^ 64 by omega)
      refine ⟨sum, hsum, ?_⟩
      rw [hval, List.filter_cons_of_neg (by simp [hp])]

theorem HeaderAt.counts_free {next : Nat} (h : HeaderAt mem a previous next b)
    (hblock : block.toNat = a) :
    decide (Heap.magicAt mem block = heapBlockMagic ∧ Heap.freeAt mem block ≠ 0) = b.free := by
  rw [Bool.eq_iff_iff, decide_eq_true_iff, h.freeAt_ne_zero hblock]
  exact and_iff_right (h.magicAt hblock)

theorem HeaderAt.counts_used {next : Nat} (h : HeaderAt mem a previous next b)
    (hblock : block.toNat = a) :
    decide (Heap.magicAt mem block = heapBlockMagic ∧ Heap.freeAt mem block = 0) = !b.free := by
  rw [h.magicAt hblock, h.freeAt hblock]
  cases b.free <;> simp

/-- Free, used and header bytes are all there is. -/
theorem extent_split (blocks : List Block) :
    extent Block.width blocks = ((blocks.filter fun b => b.free).map Block.size).sum +
      ((blocks.filter fun b => !b.free).map Block.size).sum + 32 * blocks.length := by
  induction blocks with
  | nil => rfl
  | cons b rest ih =>
    rw [extent_cons, ih, Block.width, List.length_cons]
    cases hb : b.free with
    | true =>
      simp only [List.filter_cons, hb, if_true, Bool.not_true, Bool.false_eq_true, if_false,
        List.map_cons, List.sum_cons]
      omega
    | false =>
      simp only [List.filter_cons, hb, if_true, Bool.not_false, Bool.false_eq_true, if_false,
        List.map_cons, List.sum_cons]
      omega

/-- `heap_validate` follows the list to its end. -/
theorem tiles_of_chained {previous block : UInt64} (h : Chained mem 0 previous.toNat a blocks)
    (ha : 0 < a) (hblock : block.toNat = linkTo 0 a blocks)
    (hsizes : ∀ b ∈ blocks, b.size ≠ 0 ∧ b.size % 16 = 0) (hcalm : Calm blocks)
    (hprevious : ∀ b ∈ blocks.head?, ¬ (previous ≠ 0 ∧ freeAt mem previous ≠ 0 ∧ b.free = true)) :
    Tiles mem (a + extent Block.width blocks) previous block a := by
  induction blocks generalizing a block previous with
  | nil =>
    rw [show block = 0 from UInt64.toNat_inj.mp hblock]
    exact .done previous
  | cons b rest ih =>
    obtain ⟨hne, haddr⟩ := ne_zero_of_link ha hblock
    obtain ⟨hb, hrest⟩ := h
    obtain ⟨⟨hb0, hb16⟩, hsizes'⟩ := List.forall_mem_cons.mp hsizes
    obtain ⟨hnotboth, hcalm'⟩ := List.isChain_cons.mp hcalm
    have hsize := hb.sizeAt haddr
    have hfree := hb.freeAt_ne_zero haddr
    have hend : block.toNat + 32 + (sizeAt mem block).toNat = a + b.width := by
      rw [hsize, haddr, Nat.add_assoc]
      rfl
    rw [extent_cons, ← Nat.add_assoc, ← haddr]
    refine .block hne ⟨hb.magicAt haddr, UInt64.toNat_inj.mp (hb.previousAt haddr), ?_, ?_, ?_⟩ ?_
    · exact fun hz => hb0 (by rw [← hsize, hz]; rfl)
    · rw [hsize]
      exact hb16
    · exact fun hc => hprevious b rfl ⟨hc.1, hc.2.1, hfree.mp hc.2.2⟩
    · rw [hend, haddr]
      refine ih (by rw [haddr]; exact hrest) (by omega) (hb.nextAt haddr) hsizes' hcalm' ?_
      exact fun c hc hboth => hnotboth c hc ⟨hfree.mp hboth.2.1, hboth.2.2⟩

/-! ## States of a run -/

/-- The heap and the pointers handed out and not given back, with the sizes asked for. -/
structure HeapState where
  heap : Region
  mem : Mem
  live : List (UInt64 × UInt64)

/-- The bytes that belong to a pointer. -/
def payloadSize (mem : Mem) (pointer : UInt64) : Nat := (sizeAt mem (pointer - headerBytes)).toNat

def InPayload (s : HeapState) (pointer : UInt64) (x : Nat) : Prop :=
  pointer.toNat ≤ x ∧ x < pointer.toNat + payloadSize s.mem pointer

/-- A memory clients may leave: within the heap they write only into what they were given, and
    they do not leave the magic where a header would have it. -/
structure ClientWrite (s : HeapState) (mem : Mem) : Prop where
  own : ∀ x, s.heap.base.toNat ≤ x → x < s.heap.base.toNat + s.heap.size.toNat →
    mem x ≠ s.mem x → ∃ l ∈ s.live, InPayload s l.1 x
  no_magic : ∀ l ∈ s.live, ∀ x, InPayload s l.1 x → x % 16 = 8 → load32 mem x ≠ heapBlockMagic

/-- What can be reached by calls and by client writes. -/
inductive HeapReachable (start : HeapState) : HeapState → Prop
  | start : HeapReachable start start
  | malloc {s : HeapState} {mem : Mem} {pointer : UInt64} (size : UInt64)
      (h : HeapReachable start s) (hcall : kmalloc s.heap s.mem size = some (mem, pointer)) :
      HeapReachable start
        ⟨s.heap, mem, if pointer = 0 then s.live else (pointer, size) :: s.live⟩
  | free {s : HeapState} (pointer : UInt64) (h : HeapReachable start s) :
      HeapReachable start ⟨s.heap, (kfree s.heap s.mem pointer).1,
        if (kfree s.heap s.mem pointer).2 then s.live.filter (fun l => l.1 ≠ pointer) else s.live⟩
  | write {s : HeapState} (mem : Mem) (h : HeapReachable start s) (hwrite : ClientWrite s mem) :
      HeapReachable start ⟨s.heap, mem, s.live⟩

/-- A pointer that was handed out: right behind the header of a block in use. -/
def UsedFor (base : Nat) (blocks : List Block) (l : UInt64 × UInt64) : Prop :=
  ∃ a b, (a, b) ∈ place Block.width base blocks ∧ b.free = false ∧ l.1.toNat = a + 32 ∧
    l.2.toNat ≤ b.size

/-- A heap as its chain of headers has it. -/
structure HeapCore (s : HeapState) (blocks : List Block) : Prop where
  first : s.heap.firstBlock = s.heap.base
  fits : Fits s.heap.base.toNat blocks
  extent_eq : extent Block.width blocks = s.heap.size.toNat
  nonempty : blocks ≠ []
  chained : Chained s.mem 0 0 s.heap.base.toNat blocks
  calm : Calm blocks
  live_used : ∀ l ∈ s.live, UsedFor s.heap.base.toNat blocks l
  live_nodup : (s.live.map Prod.fst).Nodup

/-- And the magic stands in the headers only. -/
structure HeapInv (s : HeapState) (blocks : List Block) : Prop extends HeapCore s blocks where
  marked : Marked s.mem s.heap.base.toNat blocks

section Core
variable {s : HeapState}

section

variable (h : HeapCore s blocks)

include h

theorem HeapCore.base_ne_zero : s.heap.base ≠ 0 := by
  intro hz
  have := h.fits.base_pos
  rw [hz] at this
  exact absurd this (by decide)

theorem HeapCore.end_lt : s.heap.base.toNat + s.heap.size.toNat < 2 ^ 64 := by
  rw [← h.extent_eq]
  exact h.fits.end_lt

theorem HeapCore.size_ge : 32 ≤ s.heap.size.toNat := by
  have := length_le_extent blocks
  have := List.length_pos_iff.mpr h.nonempty
  have := h.extent_eq
  omega

theorem HeapCore.turns : blocks.length ≤ s.heap.turns := by
  have := length_le_extent blocks
  have := h.extent_eq
  unfold Region.turns
  omega

theorem HeapCore.link : s.heap.firstBlock.toNat = linkTo 0 s.heap.base.toNat blocks := by
  obtain ⟨b, rest, rfl⟩ := List.exists_cons_of_ne_nil h.nonempty
  rw [linkTo_cons, h.first]

end

/-- The block of a pointer that was handed out, in memory. -/
theorem Chained.payload (h : Chained mem 0 0 base blocks)
    (he : (a, b) ∈ place Block.width base blocks) (hl : l.1.toNat = a + 32) :
    payloadSize mem l.1 = b.size := by
  obtain ⟨xs, ys, rfl, ha⟩ := mem_place_iff.mp he
  obtain ⟨_, hb, _⟩ := h.middle
  have hbytes : headerBytes.toNat = 32 := rfl
  refine hb.sizeAt ?_
  rw [toNat_sub64 (by omega)]
  dsimp only at ha
  omega

theorem place_aligned (h : Fits base blocks) (he : e ∈ place Block.width base blocks) :
    e.1 % 16 = 0 := by
  obtain ⟨xs, ys, rfl, ha⟩ := mem_place_iff.mp he
  rw [ha]
  exact h.middle.1

/-- The payload of a pointer that was handed out, as a part of the heap. -/
theorem HeapCore.payload (h : HeapCore s blocks) (hl : l ∈ s.live) :
    ∃ a b, (a, b) ∈ place Block.width s.heap.base.toNat blocks ∧ l.1.toNat = a + 32 ∧
      payloadSize s.mem l.1 = b.size ∧ l.2.toNat ≤ b.size := by
  obtain ⟨a, b, hplace, _, hptr, hle⟩ := h.live_used l hl
  exact ⟨a, b, hplace, hptr, h.chained.payload hplace hptr, hle⟩

theorem HeapCore.header_not_payload (h : HeapCore s blocks) (hl : l ∈ s.live)
    (he : e ∈ place Block.width s.heap.base.toNat blocks) :
    l.1.toNat + payloadSize s.mem l.1 ≤ e.1 ∨ e.1 + 32 ≤ l.1.toNat := by
  obtain ⟨a, b, hplace, hptr, hsize, _⟩ := h.payload hl
  rw [hptr, hsize]
  by_cases heq : a = e.1
  · omega
  · have hdisjoint := place_disjoint hplace he heq
    simp only [Block.width] at hdisjoint
    omega

/-! ## Steps -/

theorem taken_head {size : Nat} (h : size ≤ b.size) :
    ∃ c rest, taken size b = c :: rest ∧ c.free = false ∧ size ≤ c.size := by
  unfold taken
  split
  · exact ⟨_, _, rfl, rfl, Nat.le_refl _⟩
  · exact ⟨_, _, rfl, rfl, h⟩

theorem Block.width_pos (b : Block) : 0 < b.width := by
  unfold Block.width
  omega

theorem toNat_behind (h : found.toNat + 32 < 2 ^ 64) :
    (found + headerBytes).toNat = found.toNat + 32 := by
  rw [UInt64.toNat_add, show headerBytes.toNat = 32 from rfl]
  omega

/-- The block that was free is handed out, and no pointer to it was out before. -/
theorem HeapCore.take (h : HeapCore s blocks) (hblocks : blocks = xs ++ b :: ys)
    (hfree : b.free = true) {size requested : UInt64}
    (hfound : found.toNat = s.heap.base.toNat + extent Block.width xs) (hne : size.toNat ≠ 0)
    (halign : size.toNat % 16 = 0) (hsize : size.toNat ≤ b.size)
    (hrequested : requested.toNat ≤ size.toNat) :
    HeapCore ⟨s.heap, takeBlock s.mem found size, (found + headerBytes, requested) :: s.live⟩
        (xs ++ (taken size.toNat b ++ ys)) ∧ found + headerBytes ≠ 0 := by
  subst hblocks
  obtain ⟨_, _, _, hend⟩ := h.fits.middle
  have hpointer : (found + headerBytes).toNat = found.toNat + 32 := toNat_behind (by omega)
  obtain ⟨c, rest, htaken, hcused, hcsize⟩ := taken_head hsize
  have hwas : (found.toNat, b) ∈ place Block.width s.heap.base.toNat (xs ++ b :: ys) :=
    mem_place_iff.mpr ⟨xs, ys, rfl, hfound⟩
  refine ⟨{
    first := h.first
    fits := h.fits.taken hne halign
    extent_eq := ?_
    nonempty := ?_
    chained := (takeBlock_rearranged h.fits h.chained hfound hne halign hsize).chained
    calm := calm_taken _ hfree h.calm
    live_used := ?_
    live_nodup := ?_ }, ?_⟩
  · have := h.extent_eq
    simp only [extent_append, extent_taken, extent_cons, extent_nil] at this ⊢
    omega
  · rw [htaken]
    simp
  · rw [List.forall_mem_cons]
    refine ⟨⟨found.toNat, c, ?_, hcused, hpointer, Nat.le_trans hrequested hcsize⟩, ?_⟩
    · rw [htaken]
      exact mem_place_iff.mpr ⟨xs, rest ++ ys, rfl, hfound⟩
    · intro l hl
      obtain ⟨a, b', hmem, hused, hptr, hle⟩ := h.live_used l hl
      refine ⟨a, b', mem_place_replace (extent_taken b _) hmem ?_, hused, hptr, hle⟩
      rw [place_cons, place_nil, List.mem_singleton, Prod.mk.injEq]
      rintro ⟨_, rfl⟩
      rw [hfree] at hused
      cases hused
  · rw [List.map_cons, List.nodup_cons]
    refine ⟨fun hmem => ?_, h.live_nodup⟩
    obtain ⟨l, hl, heq⟩ := List.mem_map.mp hmem
    obtain ⟨a, b', hplace, hused, hptr, _⟩ := h.live_used l hl
    rw [heq] at hptr
    dsimp only at hptr
    have hsame := place_unique Block.width_pos hplace hwas (by dsimp only; omega)
    rw [Prod.mk.injEq] at hsame
    rw [hsame.2, hfree] at hused
    cases hused
  · intro hz
    rw [hz] at hpointer
    simp at hpointer

/-- `kmalloc` finds nothing, or the block it takes was free and large enough. -/
theorem HeapCore.kmalloc_cases (h : HeapCore s blocks) (size : UInt64) :
    (kmalloc s.heap s.mem size = some (s.mem, 0) ∧
      (alignSize size = 0 ∨ ∀ b ∈ blocks, b.free = true → b.size < (alignSize size).toNat)) ∨
      ∃ xs b ys found, blocks = xs ++ b :: ys ∧ b.free = true ∧
        found.toNat = s.heap.base.toNat + extent Block.width xs ∧
        (alignSize size).toNat ≠ 0 ∧ (alignSize size).toNat % 16 = 0 ∧
        (alignSize size).toNat ≤ b.size ∧ size.toNat ≤ (alignSize size).toNat ∧
        (∀ c ∈ xs, c.free = true → c.size < (alignSize size).toNat) ∧
        kmalloc s.heap s.mem size =
          some (takeBlock s.mem found (alignSize size), found + headerBytes) := by
  unfold kmalloc
  split
  · next hstop =>
    refine Or.inl ⟨rfl, Or.inl (hstop.resolve_right ?_)⟩
    rw [h.first]
    exact h.base_ne_zero
  · next hgo =>
    rw [not_or] at hgo
    obtain ⟨hle, halign⟩ := alignSize_spec hgo.1
    have hne : (alignSize size).toNat ≠ 0 := fun hz => hgo.1 (UInt64.toNat_inj.mp hz)
    rcases kmallocFrom_spec (alignSize size) h.chained h.fits.base_pos h.link h.turns with
      ⟨hnone, hall⟩ | ⟨xs, b, ys, found, hblocks, hfree, hsize, hfound, hfirst, hsome⟩
    · exact Or.inl ⟨hnone, Or.inr hall⟩
    · exact Or.inr ⟨xs, b, ys, found, hblocks, hfree, hfound, hne, halign, hsize, hle,
        hfirst, hsome⟩

/-- A block that was in use is given back, and with it the only pointer to it. -/
theorem HeapCore.give (h : HeapCore s (xs ++ b :: ys)) {pointer : UInt64}
    (hpointer : pointer.toNat = s.heap.base.toNat + extent Block.width xs + 32)
    (hblock : block.toNat = s.heap.base.toNat + extent Block.width xs) :
    HeapCore ⟨s.heap, releaseBlock s.mem block, s.live.filter (fun l => l.1 ≠ pointer)⟩
      (released xs b ys) := by
  obtain ⟨hfits, hextent⟩ := h.fits.released
  have hchained := (releaseBlock_rearranged h.fits h.chained hblock).chained
  constructor
  case first => exact h.first
  case fits => exact hfits
  case extent_eq => rw [hextent, h.extent_eq]
  case nonempty =>
    intro hnil
    rw [hnil, extent_nil, extent_append, extent_cons, Block.width] at hextent
    omega
  case chained =>
    dsimp only
    exact hchained
  case calm => exact calm_released h.calm
  case live_used =>
    intro l hl
    rw [List.mem_filter, decide_eq_true_iff] at hl
    obtain ⟨a, b', hplace, hb', hptr, hle⟩ := h.live_used l hl.1
    refine ⟨a, b', (mem_place_released hb').mpr ?_, hb', hptr, hle⟩
    rw [place_append, place_cons, List.mem_append, List.mem_cons, Prod.mk.injEq] at hplace
    refine hplace.imp_right (Or.resolve_left · fun heq => hl.2 (UInt64.toNat_inj.mp ?_))
    omega
  case live_nodup => exact h.live_nodup.sublist (List.filter_sublist.map _)

/-- Clients that stay within what they were given leave every header as it is. -/
theorem HeapCore.write (h : HeapCore s blocks)
    (hown : ∀ x, s.heap.base.toNat ≤ x → x < s.heap.base.toNat + s.heap.size.toNat →
      mem x ≠ s.mem x → ∃ l ∈ s.live, InPayload s l.1 x) :
    HeapCore ⟨s.heap, mem, s.live⟩ blocks where
  first := h.first
  fits := h.fits
  extent_eq := h.extent_eq
  nonempty := h.nonempty
  chained := by
    have hextent := h.extent_eq
    apply h.chained.congr_headers
    intro e he x h1 h2
    by_contra hchanged
    have hbounds := place_bounds he
    simp only [Block.width] at hbounds
    obtain ⟨l, hl, hlow, hhigh⟩ := hown x (by omega) (by omega) hchanged
    have := h.header_not_payload hl he
    omega
  calm := h.calm
  live_used := h.live_used
  live_nodup := h.live_nodup

end Core

section Inv
variable {s : HeapState}

/-- `kfree` refuses, or its pointer is that of a block in use. -/
theorem HeapInv.kfree_cases (h : HeapInv s blocks) (pointer : UInt64) :
    kfree s.heap s.mem pointer = (s.mem, false) ∨
      ∃ xs b ys, blocks = xs ++ b :: ys ∧ b.free = false ∧
        pointer.toNat = s.heap.base.toNat + extent Block.width xs + 32 ∧
        (pointer - headerBytes).toNat = s.heap.base.toNat + extent Block.width xs ∧
        kfree s.heap s.mem pointer = (releaseBlock s.mem (pointer - headerBytes), true) := by
  have hbytes : headerBytes.toNat = 32 := rfl
  have hend := h.end_lt
  have hextent := h.extent_eq
  have hsize := h.size_ge
  unfold kfree
  split
  · exact Or.inl rfl
  split
  · exact Or.inl rfl
  next _ hrange =>
  split
  · exact Or.inl rfl
  next hblock =>
  right
  rw [not_or, not_or, not_or, UInt64.lt_iff_toNat_lt, UInt64.toNat_add, ge_iff_le,
    UInt64.le_iff_toNat_le, UInt64.toNat_add, not_not, hbytes] at hrange
  obtain ⟨_, hlow, hhigh, hmask⟩ := hrange
  have haligned : pointer.toNat % 16 = 0 := by
    rw [← UInt64.toNat_inj, toNat_and_low _ _ 4 (by decide)] at hmask
    exact hmask
  rw [not_or, not_or, not_not, not_not] at hblock
  have hbase := h.fits.base_aligned
  have hfits := extent_aligned h.fits.sizes
  have haddr : (pointer - headerBytes).toNat = pointer.toNat - 32 := by
    rw [toNat_sub64 (by omega), hbytes]
  -- the magic that was found is that of a block
  obtain ⟨e, he, hx⟩ := h.marked (pointer.toNat - 8) (by omega) (by omega) (by omega) (by
    have := hblock.2.1
    unfold magicAt at this
    rwa [haddr, show pointer.toNat - 32 + 24 = pointer.toNat - 8 by omega] at this)
  obtain ⟨xs, ys, rfl, hxs⟩ := mem_place_iff.mp he
  obtain ⟨_, hb, _⟩ := h.chained.middle
  have hat : (pointer - headerBytes).toNat = s.heap.base.toNat + extent Block.width xs := by omega
  refine ⟨xs, e.2, ys, rfl, ?_, by omega, hat, rfl⟩
  cases hf : e.2.free with
  | false => rfl
  | true => exact absurd hblock.2.2 ((hb.freeAt_ne_zero hat).mpr hf)

theorem HeapInv.write (h : HeapInv s blocks) (hwrite : ClientWrite s mem) :
    HeapInv ⟨s.heap, mem, s.live⟩ blocks := by
  refine ⟨h.toHeapCore.write hwrite.own, fun x h1 h2 h8 hmagic => ?_⟩
  dsimp only at h1 h2 hmagic
  have hextent := h.extent_eq
  have hbase := h.fits.base_aligned
  have hfits := extent_aligned h.fits.sizes
  apply h.marked x h1 h2 h8
  rw [← hmagic]
  apply load32_congr
  intro y hy1 hy2
  by_contra hchanged
  obtain ⟨l, hl, hlow, hhigh⟩ := hwrite.own y (by omega) (by omega) (Ne.symm hchanged)
  -- a payload is aligned, so it holds the whole word
  obtain ⟨a, b, hplace, hptr, _, _⟩ := h.payload hl
  have ha := place_aligned h.fits hplace
  dsimp only at ha
  exact hwrite.no_magic l hl x ⟨by omega, by omega⟩ h8 hmagic

end Inv

/-! ## A fresh heap -/

/-- What `heap_init` needs of the page allocator. -/
structure PagesOk (pmm : Pmm) : Prop where
  zero_reserved : pmm.isUsable 0 = false
  page_count : pmm.pageCount < 2 ^ 52

/-- The region `heap_init` sets up lies in the run of pages it was given. -/
theorem heapInit_region (hpages : PagesOk phys.pmm)
    (h : heapInit phys old pages = (phys', heap, true)) :
    heap.firstBlock = heap.base ∧ heap.base.toNat % 4096 = 0 ∧ heap.base ≠ 0 ∧
      heap.size.toNat % 4096 = 0 ∧ 4096 ≤ heap.size.toNat ∧
      heap.base.toNat + heap.size.toNat < 2 ^ 64 ∧
      phys'.mem = writeHeader phys.mem heap.base (heap.size - headerBytes) 0 0 := by
  unfold heapInit at h
  split at h
  · simp at h
  · next hcount =>
    rw [not_or] at hcount
    have hne : pages.toNat ≠ 0 := fun hz => hcount.1 (UInt64.toNat_inj.mp hz)
    dsimp only at h
    split at h
    · simp at h
    · next haddr =>
      simp only [Prod.mk.injEq, and_true] at h
      obtain ⟨rfl, rfl⟩ := h
      have hlt := hpages.page_count
      have hpage : (UInt64.ofNat argusPageSize).toNat = 4096 := by decide
      rcases pmmAllocPages_outcome hpages.zero_reserved hlt pages.toNat with
        ⟨hzero, _⟩ | ⟨_, _, start, hstart, hle, _⟩
      · exact absurd hzero haddr
      · rw [show argusPageSize = 4096 from rfl] at hstart
        have hsize : (pages * UInt64.ofNat argusPageSize).toNat = pages.toNat * 4096 := by
          rw [UInt64.toNat_mul, hpage]
          omega
        dsimp only
        rw [hsize, hstart]
        refine ⟨rfl, by omega, haddr, by omega, by omega, by omega, rfl⟩

theorem heapInit_core (hpages : PagesOk phys.pmm)
    (h : heapInit phys old pages = (phys', heap, true)) :
    HeapCore ⟨heap, phys'.mem, []⟩ [⟨heap.size.toNat - 32, true⟩] := by
  obtain ⟨hfirst, hbase, hbase0, hsize, hsize0, hend, hmem⟩ := heapInit_region hpages h
  have hbytes : headerBytes.toNat = 32 := rfl
  have hleft : (heap.size - headerBytes).toNat = heap.size.toNat - 32 := by
    rw [toNat_sub64 (by omega), hbytes]
  have hpos : 0 < heap.base.toNat := Nat.pos_of_ne_zero fun hz => hbase0 (UInt64.toNat_inj.mp hz)
  have hextent : extent Block.width [⟨heap.size.toNat - 32, true⟩] = heap.size.toNat := by
    simp only [extent_cons, extent_nil, Block.width]
    omega
  constructor
  case first => exact hfirst
  case fits =>
    refine ⟨hpos, by dsimp only; omega, by rw [hextent]; exact hend, ?_⟩
    rw [List.forall_mem_singleton]
    dsimp only
    omega
  case extent_eq => exact hextent
  case nonempty => simp
  case chained =>
    dsimp only
    rw [hmem]
    refine ⟨?_, trivial⟩
    have hheader : HeaderAt (writeHeader phys.mem heap.base (heap.size - headerBytes) 0 0)
        heap.base.toNat (0 : UInt64).toNat (0 : UInt64).toNat
        ⟨(heap.size - headerBytes).toNat, true⟩ := writeHeader_headerAt
    rwa [hleft] at hheader
  case calm => exact List.isChain_singleton _
  case live_used => simp
  case live_nodup => simp

theorem heapInit_inv (hpages : PagesOk phys.pmm) (h : heapInit phys old pages = (phys', heap, true))
    (hclean : ∀ x, heap.base.toNat ≤ x → x < heap.base.toNat + heap.size.toNat → x % 16 = 8 →
      load32 phys.mem x ≠ heapBlockMagic) :
    HeapInv ⟨heap, phys'.mem, []⟩ [⟨heap.size.toNat - 32, true⟩] := by
  have hcore := heapInit_core hpages h
  have hextent := hcore.extent_eq
  obtain ⟨_, hbase, _, _, _, _, hmem⟩ := heapInit_region hpages h
  refine ⟨hcore, fun x h1 h2 h8 hmagic => ?_⟩
  rw [hextent] at h2
  dsimp only at h2 hmagic
  rw [hmem] at hmagic
  rcases writeHeader_magic (by omega) rfl h8 hmagic with hx | hx
  · exact ⟨_, List.mem_cons_self .., hx⟩
  · exact absurd hx (hclean x h1 h2 h8)

/-! ## What the heap promises -/

/-- The block list fills the region, `heap_validate` accepts it, every pointer that is out has
    its payload to itself, and the byte counts add up. -/
structure HeapSound (s : HeapState) : Prop where
  validates : heapValidate s.heap s.mem = true
  returns : ∀ size, ∃ result, kmalloc s.heap s.mem size = some result
  tiled : ∃ blocks : List Block,
    Chained s.mem 0 0 s.heap.base.toNat blocks ∧
    extent Block.width blocks = s.heap.size.toNat ∧
    (∀ b ∈ blocks, b.size ≠ 0 ∧ b.size % 16 = 0) ∧ Calm blocks ∧
    (∀ l ∈ s.live, ∀ e ∈ place Block.width s.heap.base.toNat blocks,
      l.1.toNat + payloadSize s.mem l.1 ≤ e.1 ∨ e.1 + 32 ≤ l.1.toNat) ∧
    ∃ free used, heapFreeBytes s.heap s.mem = some free ∧ heapUsedBytes s.heap s.mem = some used ∧
      free.toNat + used.toNat + 32 * blocks.length = s.heap.size.toNat
  payload : ∀ l ∈ s.live, l.1.toNat % 16 = 0 ∧ l.2.toNat ≤ payloadSize s.mem l.1 ∧
    s.heap.base.toNat ≤ l.1.toNat ∧
    l.1.toNat + payloadSize s.mem l.1 ≤ s.heap.base.toNat + s.heap.size.toNat
  disjoint : s.live.Pairwise fun l l' => l.1.toNat + payloadSize s.mem l.1 ≤ l'.1.toNat ∨
    l'.1.toNat + payloadSize s.mem l'.1 ≤ l.1.toNat

section Sound
variable {s : HeapState}

theorem HeapInv.validates (h : HeapInv s blocks) : heapValidate s.heap s.mem = true := by
  have hlink : s.heap.base.toNat = linkTo 0 s.heap.base.toNat blocks := h.first ▸ h.link
  have htiles := @tiles_of_chained _ _ _ 0 _ h.chained h.fits.base_pos hlink
    h.fits.sizes h.calm (by simp)
  rw [h.extent_eq] at htiles
  unfold heapValidate
  rw [if_neg (by rw [h.first]; simp [h.base_ne_zero]), h.first, UInt64.toNat_div]
  exact (validateFrom_base_iff h.base_ne_zero (Nat.le_of_lt h.end_lt)).mpr htiles

theorem HeapInv.accounts (h : HeapInv s blocks) :
    ∃ free used, heapFreeBytes s.heap s.mem = some free ∧ heapUsedBytes s.heap s.mem = some used ∧
      free.toNat + used.toNat + 32 * blocks.length = s.heap.size.toNat := by
  have hend := h.fits.end_lt
  have hroom : (0 : UInt64).toNat + extent Block.width blocks < 2 ^ 64 := by
    rw [UInt64.toNat_zero]
    omega
  obtain ⟨free, hfree, hfreeSum⟩ := sumFrom_spec (p := fun b => b.free)
    (fun _ _ _ _ _ hb haddr => hb.counts_free haddr) h.chained h.fits.base_pos h.link
    h.turns hroom
  obtain ⟨used, hused, husedSum⟩ := sumFrom_spec (p := fun b => !b.free)
    (fun _ _ _ _ _ hb haddr => hb.counts_used haddr) h.chained h.fits.base_pos h.link
    h.turns hroom
  refine ⟨free, used, hfree, hused, ?_⟩
  have htotal := extent_split blocks
  rw [hfreeSum, husedSum, ← h.extent_eq, htotal, UInt64.toNat_zero]
  omega

theorem HeapInv.sound (h : HeapInv s blocks) : HeapSound s where
  validates := h.validates
  returns := by
    intro size
    rcases h.kmalloc_cases size with ⟨hnone, -⟩ | ⟨_, _, _, _, -, -, -, -, -, -, -, -, hsome⟩
    · exact ⟨_, hnone⟩
    · exact ⟨_, hsome⟩
  tiled := ⟨blocks, h.chained, h.extent_eq, h.fits.sizes, h.calm,
    fun l hl e he => h.header_not_payload hl he, h.accounts⟩
  payload := by
    intro l hl
    obtain ⟨a, b, hplace, hptr, hsize, hle⟩ := h.payload hl
    have ha := place_aligned h.fits hplace
    have hbounds := place_bounds hplace
    rw [h.extent_eq] at hbounds
    simp only [Block.width] at ha hbounds
    rw [hsize]
    exact ⟨by omega, hle, by omega, by omega⟩
  disjoint := by
    have hnodup := h.live_nodup
    rw [List.Nodup, List.pairwise_map] at hnodup
    refine hnodup.imp_of_mem ?_
    intro l l' hl hl' hne
    obtain ⟨a, b, hplace, hptr, hsize, _⟩ := h.payload hl
    obtain ⟨a', b', hplace', hptr', hsize', _⟩ := h.payload hl'
    rw [hptr, hsize, hptr', hsize']
    have hdiff : a ≠ a' := fun heq => hne (UInt64.toNat_inj.mp (by omega))
    have := place_disjoint hplace hplace' hdiff
    simp only [Block.width] at this
    omega

end Sound

/-- A machine with one usable page and cleared memory. -/
def onePagePhys : Phys where
  mem := fun _ => 0
  pmm :=
    { usableBitmap := fun i => if i = 0 then 2 else 0
      usedBitmap := fun _ => 0
      pageCount := 2
      managedCount := 1
      freeCount := 1 }

abbrev onePageHeap : Region := ⟨4096, 4096, 4096⟩

abbrev onePageMem : Mem := (heapInit onePagePhys ⟨0, 0, 0⟩ 1).1.mem

/-- Three requests are served, and the second pointer is taken back. -/
theorem onePage_calls : ∃ m₁ m₂ m₃, kmalloc onePageHeap onePageMem 1 = some (m₁, 4128) ∧
    kmalloc onePageHeap m₁ 20 = some (m₂, 4176) ∧ kmalloc onePageHeap m₂ 100 = some (m₃, 4240) ∧
    (kfree onePageHeap m₃ 4176).2 = true := by
  have h : ((kmalloc onePageHeap onePageMem 1).any fun r₁ => r₁.2 = 4128 &&
      (kmalloc onePageHeap r₁.1 20).any fun r₂ => r₂.2 = 4176 &&
        (kmalloc onePageHeap r₂.1 100).any fun r₃ => r₃.2 = 4240 &&
          (kfree onePageHeap r₃.1 4176).2) = true := by decide +kernel
  simp only [Option.any_eq_true, Bool.and_eq_true, decide_eq_true_eq, Prod.exists] at h
  obtain ⟨m₁, _, h₁, rfl, m₂, _, h₂, rfl, m₃, _, h₃, rfl, hfree⟩ := h
  exact ⟨m₁, m₂, m₃, h₁, h₂, h₃, hfree⟩

theorem onePage_clean (x : Nat) : load32 onePagePhys.mem x ≠ heapBlockMagic := by
  rw [show load32 onePagePhys.mem x = 0 from rfl]
  decide

end ArgusOs.Heap
