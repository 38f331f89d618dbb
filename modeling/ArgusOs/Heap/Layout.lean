/-
  The blocks of the heap as a list.

  `Chained` says that memory holds the headers of these blocks, one behind the other and linked
  both ways, and `Marked` that the header magic stands nowhere else where `kfree` could look for
  it. Each change the heap makes to memory is shown to be a change of this list (`Rearranged`):
  absorbing the next block (`absorb_rearranged`), splitting a block (`splitBlock_rearranged`),
  and taking and giving back a block, which are built from these. That the headers stay chained
  needs nothing of the magic.
-/
import ArgusOs.Heap.Blocks
import ArgusOs.Lib.Tiling

namespace ArgusOs.Heap

open Lib Memory

variable {mem mem' : Mem} {a base previous stop x : Nat}

structure Block where
  size : Nat
  free : Bool
  deriving DecidableEq

variable {blocks xs ys : List Block}

/-- A block with its header. -/
def Block.width (b : Block) : Nat := 32 + b.size

/-- The header of a block in memory. -/
structure HeaderAt (mem : Mem) (a previous next : Nat) (b : Block) : Prop where
  size : (load64 mem a).toNat = b.size
  previous : (load64 mem (a + 8)).toNat = previous
  next : (load64 mem (a + 16)).toNat = next
  magic : load32 mem (a + 24) = heapBlockMagic
  free : load32 mem (a + 28) = if b.free then 1 else 0

theorem HeaderAt.congr {next : Nat} {b : Block} (h : HeaderAt mem a previous next b)
    (hsame : ∀ x, a ≤ x → x < a + 32 → mem' x = mem x) : HeaderAt mem' a previous next b where
  size := by rw [load64_congr fun x h1 h2 => hsame x (by omega) (by omega), h.size]
  previous := by rw [load64_congr fun x h1 h2 => hsame x (by omega) (by omega), h.previous]
  next := by rw [load64_congr fun x h1 h2 => hsame x (by omega) (by omega), h.next]
  magic := by rw [load32_congr fun x h1 h2 => hsame x (by omega) (by omega), h.magic]
  free := by rw [load32_congr fun x h1 h2 => hsame x (by omega) (by omega), h.free]

section Loads
variable {next : Nat} {b : Block} {block : UInt64}

variable (h : HeaderAt mem a previous next b)

include h

section

variable (hblock : block.toNat = a)

include hblock

theorem HeaderAt.sizeAt : (sizeAt mem block).toNat = b.size := by
  rw [← hblock] at h
  exact h.size

theorem HeaderAt.previousAt : (previousAt mem block).toNat = previous := by
  rw [← hblock] at h
  exact h.previous

theorem HeaderAt.nextAt : (nextAt mem block).toNat = next := by
  rw [← hblock] at h
  exact h.next

theorem HeaderAt.magicAt : magicAt mem block = heapBlockMagic := by
  rw [← hblock] at h
  exact h.magic

theorem HeaderAt.freeAt : freeAt mem block = if b.free then 1 else 0 := by
  rw [← hblock] at h
  exact h.free

theorem HeaderAt.freeAt_ne_zero : Heap.freeAt mem block ≠ 0 ↔ b.free = true := by
  rw [h.freeAt hblock]
  cases b.free <;> simp

end

theorem HeaderAt.store (value : UInt64) :
    HeaderAt (store64 mem a value) a previous next ⟨value.toNat, b.free⟩ ∧
      HeaderAt (store64 mem (a + 8) value) a value.toNat next b ∧
      HeaderAt (store64 mem (a + 16) value) a previous value.toNat b := by
  refine ⟨⟨?_, ?_, ?_, ?_, ?_⟩, ⟨?_, ?_, ?_, ?_, ?_⟩, ?_, ?_, ?_, ?_, ?_⟩ <;>
    simp (disch := omega) only [load64_store64, load64_store64_of_disjoint,
      load32_store64_of_disjoint, h.size, h.previous, h.next, h.magic, h.free]

end Loads

/-- The link to the blocks that start at `a`. -/
def linkTo (stop a : Nat) (rest : List Block) : Nat := if rest = [] then stop else a

@[simp] theorem linkTo_cons (stop a : Nat) (b : Block) (rest : List Block) :
    linkTo stop a (b :: rest) = a := if_neg (List.cons_ne_nil b rest)

/-- Headers one behind the other, the first linked back to `previous`, the last on to `stop`. -/
def Chained (mem : Mem) (stop : Nat) : Nat → Nat → List Block → Prop
  | _, _, [] => True
  | previous, a, b :: rest =>
    HeaderAt mem a previous (linkTo stop (a + b.width) rest) b ∧
      Chained mem stop a (a + b.width) rest

/-- The last block's address, or `previous` if there is none. -/
def lastAt : Nat → Nat → List Block → Nat
  | previous, _, [] => previous
  | _, a, b :: rest => lastAt a (a + b.width) rest

theorem chained_append (xs : List Block) (hne : ys ≠ []) :
    Chained mem stop previous a (xs ++ ys) ↔
      Chained mem (a + extent Block.width xs) previous a xs ∧
        Chained mem stop (lastAt previous a xs) (a + extent Block.width xs) ys := by
  induction xs generalizing previous a with
  | nil => simp [Chained, lastAt]
  | cons x xs ih =>
    have hlink : linkTo stop (a + x.width) (xs ++ ys) =
        linkTo (a + extent Block.width (x :: xs)) (a + x.width) xs := by
      cases xs <;> simp [linkTo, hne]
    rw [List.cons_append, Chained, ih, Chained, hlink, extent_cons, ← Nat.add_assoc, lastAt,
      and_assoc]

/-- The chain is a matter of the headers only. -/
theorem Chained.congr_headers (h : Chained mem stop previous a blocks)
    (hsame : ∀ e ∈ place Block.width a blocks, ∀ x, e.1 ≤ x → x < e.1 + 32 → mem' x = mem x) :
    Chained mem' stop previous a blocks := by
  induction blocks generalizing previous a with
  | nil => trivial
  | cons b rest ih =>
    rw [place_cons, List.forall_mem_cons] at hsame
    exact ⟨h.1.congr hsame.1, ih h.2 hsame.2⟩

theorem Chained.congr (h : Chained mem stop previous a blocks)
    (hsame : ∀ x, a ≤ x → x < a + extent Block.width blocks → mem' x = mem x) :
    Chained mem' stop previous a blocks := by
  apply h.congr_headers
  intro e he x h1 h2
  have hbounds := place_bounds he
  have hw : e.2.width = 32 + e.2.size := rfl
  exact hsame x (by omega) (by omega)

/-- Where the magic stands, among the places `kfree` may look at. -/
def Marked (mem : Mem) (base : Nat) (blocks : List Block) : Prop :=
  ∀ x, base ≤ x → x < base + extent Block.width blocks → x % 16 = 8 →
    load32 mem x = heapBlockMagic → ∃ e ∈ place Block.width base blocks, x = e.1 + 24

/-- Blocks that can lie at `base`: aligned, not empty, and below the end of the address space. -/
structure Fits (base : Nat) (blocks : List Block) : Prop where
  base_pos : 0 < base
  base_aligned : base % 16 = 0
  end_lt : base + extent Block.width blocks < 2 ^ 64
  sizes : ∀ b ∈ blocks, b.size ≠ 0 ∧ b.size % 16 = 0

theorem extent_aligned (h : ∀ b ∈ blocks, b.size ≠ 0 ∧ b.size % 16 = 0) :
    extent Block.width blocks % 16 = 0 := by
  induction blocks with
  | nil => rfl
  | cons b rest ih =>
    have hb := (h b (List.mem_cons_self ..)).2
    have hrest := ih fun c hc => h c (List.mem_cons_of_mem _ hc)
    rw [extent_cons, Block.width]
    omega

/-- The part of a list that is in the middle, with what is known of it. -/
theorem Fits.middle {b : Block} (h : Fits base (xs ++ b :: ys)) :
    (base + extent Block.width xs) % 16 = 0 ∧ b.size ≠ 0 ∧ b.size % 16 = 0 ∧
      base + extent Block.width xs + (32 + b.size) + extent Block.width ys < 2 ^ 64 := by
  have hxs := extent_aligned fun c hc => h.sizes c (List.mem_append_left _ hc)
  have hb := h.sizes b (List.mem_append_right _ (List.mem_cons_self ..))
  have hend := h.end_lt
  have hbase := h.base_aligned
  rw [extent_append, extent_cons, Block.width] at hend
  exact ⟨by omega, hb.1, hb.2, by omega⟩

/-! ## Stores -/

theorem magic_low : heapBlockMagic.toNat % 16 = 5 := by decide

/-- An aligned pointer is not the magic, in its low half. -/
theorem pointer_ne_magic (h : (load64 mem a).toNat % 16 = 0) : load32 mem a ≠ heapBlockMagic := by
  intro heq
  have hlow := load32_toNat mem a
  have hmagic := magic_low
  rw [heq] at hlow
  omega

section LinkBack
variable {link block : UInt64} {z : Nat}

theorem linkBack_below (hlink : link.toNat = linkTo 0 z ys) (hx : x < z) :
    linkBack mem link block x = mem x := by
  unfold linkBack
  split
  · rfl
  · next hne =>
    have hz : link.toNat = z := by
      rw [hlink]
      unfold linkTo at hlink ⊢
      split at hlink
      · exact absurd (UInt64.toNat_inj.mp hlink) hne
      · next hys => rw [if_neg hys]
    exact store64_outside (by omega)

theorem linkBack_chained (hlink : link.toNat = linkTo 0 z ys) (hz : 0 < z)
    (h : Chained mem stop previous z ys) :
    Chained (linkBack mem link block) stop block.toNat z ys := by
  cases ys with
  | nil => trivial
  | cons y ys =>
    have hlink' : link.toNat = z := hlink
    have hne : link ≠ 0 := by
      rintro rfl
      exact absurd hlink' (by simp; omega)
    unfold linkBack
    rw [if_neg hne]
    unfold setPrevious
    rw [hlink']
    obtain ⟨hy, hys⟩ := h
    have hw : y.width = 32 + y.size := rfl
    exact ⟨(hy.store block).2.1, hys.congr fun x h1 h2 => store64_outside (by omega)⟩

theorem linkBack_magic (hlink : link.toNat % 16 = 0) (hblock : block.toNat % 16 = 0)
    (hx : x % 16 = 8) (h : load32 (linkBack mem link block) x = heapBlockMagic) :
    load32 mem x = heapBlockMagic := by
  unfold linkBack at h
  split at h
  · exact h
  · unfold setPrevious at h
    by_cases heq : x = link.toNat + 8
    · refine absurd h (pointer_ne_magic ?_)
      rw [heq, load64_store64]
      exact hblock
    · rwa [load32_store64_of_disjoint (by omega)] at h

end LinkBack

/-! ## Writing a header -/

section WriteHeader
variable {block size previous next : UInt64}

theorem writeHeader_headerAt :
    HeaderAt (writeHeader mem block size previous next) block.toNat previous.toNat next.toNat
      ⟨size.toNat, true⟩ := by
  unfold writeHeader setSize setPrevious setNext setMagic setFree
  refine ⟨?_, ?_, ?_, ?_, ?_⟩
  · rw [load64_store32_of_disjoint (by omega), load64_store32_of_disjoint (by omega),
      load64_store64_of_disjoint (by omega), load64_store64_of_disjoint (by omega), load64_store64]
  · rw [load64_store32_of_disjoint (by omega), load64_store32_of_disjoint (by omega),
      load64_store64_of_disjoint (by omega), load64_store64]
  · rw [load64_store32_of_disjoint (by omega), load64_store32_of_disjoint (by omega),
      load64_store64]
  · rw [load32_store32_of_disjoint (by omega), load32_store32]
  · rw [load32_store32]
    rfl

theorem writeHeader_outside (h : x < block.toNat ∨ block.toNat + 32 ≤ x) :
    writeHeader mem block size previous next x = mem x := by
  unfold writeHeader setSize setPrevious setNext setMagic setFree
  rw [store32_outside (by omega), store32_outside (by omega), store64_outside (by omega),
    store64_outside (by omega), store64_outside (by omega)]

theorem writeHeader_magic (hblock : block.toNat % 16 = 0) (hprevious : previous.toNat % 16 = 0)
    (hx : x % 16 = 8) (h : load32 (writeHeader mem block size previous next) x = heapBlockMagic) :
    x = block.toNat + 24 ∨ load32 mem x = heapBlockMagic := by
  by_cases h24 : x = block.toNat + 24
  · exact Or.inl h24
  right
  by_cases h8 : x = block.toNat + 8
  · refine absurd h (pointer_ne_magic ?_)
    rw [h8, writeHeader_headerAt.previous]
    exact hprevious
  · rwa [load32_congr fun y h1 h2 => writeHeader_outside (by omega)] at h

end WriteHeader

/-! ## Changes of one block -/

/-- A change of memory that leaves other blocks: they are chained, and the magic stands at their
    headers only if that was so before. -/
structure Rearranged (mem : Mem) (base : Nat) (blocks : List Block) (mem' : Mem)
    (blocks' : List Block) : Prop where
  chained : Chained mem' 0 0 base blocks'
  marked : Marked mem base blocks → Marked mem' base blocks'

namespace Rearranged
variable {mem'' : Mem} {blocks' blocks'' : List Block}

theorem refl (h : Chained mem 0 0 base blocks) : Rearranged mem base blocks mem blocks := ⟨h, id⟩

theorem trans (h : Rearranged mem base blocks mem' blocks')
    (h' : Rearranged mem' base blocks' mem'' blocks'') :
    Rearranged mem base blocks mem'' blocks'' :=
  ⟨h'.chained, h'.marked ∘ h.marked⟩

end Rearranged

section Middle
variable {b : Block} {block : UInt64}

/-- The header of a block in the middle, and the chains on both sides. -/
theorem Chained.middle (h : Chained mem 0 0 base (xs ++ b :: ys)) :
    Chained mem (base + extent Block.width xs) 0 base xs ∧
      HeaderAt mem (base + extent Block.width xs) (lastAt 0 base xs)
        (linkTo 0 (base + extent Block.width xs + b.width) ys) b ∧
      Chained mem 0 (base + extent Block.width xs) (base + extent Block.width xs + b.width) ys :=
  (chained_append xs (List.cons_ne_nil b ys)).mp h

/-- Blocks put in the place of others of the same extent, the first where the first was. -/
theorem Marked.replace {c : Block} (rest rest' : List Block)
    (h : Marked mem base (xs ++ b :: (rest ++ ys)))
    (hextent : extent Block.width (c :: rest') = extent Block.width (b :: rest))
    (hmagic : ∀ x, x % 16 = 8 → load32 mem' x = heapBlockMagic → load32 mem x = heapBlockMagic ∨
      ∃ e ∈ place Block.width (base + extent Block.width xs + c.width) rest', x = e.1 + 24)
    (hgone : ∀ e ∈ place Block.width (base + extent Block.width xs + b.width) rest,
      load32 mem' (e.1 + 24) ≠ heapBlockMagic) : Marked mem' base (xs ++ c :: (rest' ++ ys)) := by
  intro x h1 h2 h8 hx
  simp only [extent_append, extent_cons] at h2 hextent
  have htail : base + extent Block.width xs + c.width + extent Block.width rest' =
      base + extent Block.width xs + b.width + extent Block.width rest := by omega
  simp only [place_append, List.mem_append, place_cons, List.mem_cons, htail]
  rcases hmagic x h8 hx with hold | ⟨e, he, hxe⟩
  · obtain ⟨e, he, rfl⟩ := h x h1 (by simp only [extent_append, extent_cons]; omega) h8 hold
    simp only [place_append, List.mem_append, place_cons, List.mem_cons] at he
    rcases he with he | rfl | he | he
    · exact ⟨e, Or.inl he, rfl⟩
    · exact ⟨_, Or.inr (Or.inl rfl), rfl⟩
    · exact absurd hx (hgone e he)
    · exact ⟨e, Or.inr (Or.inr (Or.inr he)), rfl⟩
  · exact ⟨e, Or.inr (Or.inr (Or.inl he)), hxe⟩

section

variable (hfits : Fits base (xs ++ b :: ys)) (h : Chained mem 0 0 base (xs ++ b :: ys))
  (hblock : block.toNat = base + extent Block.width xs)

include hfits h hblock

theorem setFree_rearranged (free : Bool) :
    Rearranged mem base (xs ++ b :: ys) (setFree mem block (if free then 1 else 0))
      (xs ++ ⟨b.size, free⟩ :: ys) := by
  obtain ⟨hxs, hb, hys⟩ := h.middle
  obtain ⟨halign, _, _, _⟩ := hfits.middle
  have hw : b.width = 32 + b.size := rfl
  unfold setFree
  rw [hblock]
  generalize ha : base + extent Block.width xs = a at *
  constructor
  · rw [chained_append xs (List.cons_ne_nil _ ys), ha]
    refine ⟨hxs.congr fun x h1 h2 => store32_outside (by omega), ⟨?_, ?_, ?_, ?_, ?_⟩,
      hys.congr fun x h1 h2 => store32_outside (by omega)⟩
    · rw [load64_store32_of_disjoint (by omega), hb.size]
    · rw [load64_store32_of_disjoint (by omega), hb.previous]
    · rw [load64_store32_of_disjoint (by omega), hb.next]
      rfl
    · rw [load32_store32_of_disjoint (by omega), hb.magic]
    · rw [load32_store32]
  · refine fun hmarked => hmarked.replace [] [] rfl (fun x h8 hmagic => Or.inl ?_) (by simp)
    rwa [load32_store32_of_disjoint (by omega)] at hmagic

/-- The block that is left of a block when its first `size` bytes are kept. -/
theorem splitBlock_rearranged {size : UInt64} (hsize : size.toNat % 16 = 0)
    (hroom : size.toNat + 48 ≤ b.size) :
    Rearranged mem base (xs ++ b :: ys) (splitBlock mem block size)
      (xs ++ ⟨size.toNat, b.free⟩ :: ⟨b.size - size.toNat - 32, true⟩ :: ys) := by
  obtain ⟨hxs, hb, hys⟩ := h.middle
  obtain ⟨halign, _, hbsize, hend⟩ := hfits.middle
  have hw : b.width = 32 + b.size := rfl
  have hbytes : headerBytes.toNat = 32 := rfl
  have hsplit : (block + headerBytes + size).toNat = block.toNat + 32 + size.toNat := by
    rw [UInt64.toNat_add, UInt64.toNat_add, hbytes]
    omega
  have hload := hb.sizeAt hblock
  have hrest : (sizeAt mem block - size - headerBytes).toNat = b.size - size.toNat - 32 := by
    rw [toNat_sub64 ?_,
      toNat_sub64 ?_, hload, hbytes]
    · omega
    · rw [toNat_sub64 (by omega)]
      omega
  have hlink := hb.nextAt hblock
  have hlinkAligned : (nextAt mem block).toNat % 16 = 0 := by
    rw [hlink]
    unfold linkTo
    split <;> omega
  unfold splitBlock
  dsimp only
  generalize block + headerBytes + size = split at hsplit
  generalize sizeAt mem block - size - headerBytes = left at hrest
  have hnext : nextAt (writeHeader mem split left block (nextAt mem block)) split =
      nextAt mem block := by
    apply UInt64.toNat_inj.mp
    exact writeHeader_headerAt.next
  rw [hnext]
  generalize nextAt mem block = link at hlink hlinkAligned
  generalize ha : base + extent Block.width xs = a at *
  have hkept : (⟨size.toNat, b.free⟩ : Block).width = 32 + size.toNat := rfl
  have hleft : (⟨b.size - size.toNat - 32, true⟩ : Block).width = b.size - size.toNat := by
    simp only [Block.width]
    omega
  have houter : ∀ x, (x < a ∨ a + 24 ≤ x) →
      setSize (setNext (linkBack (writeHeader mem split left block link) link split) block split)
        block size x = linkBack (writeHeader mem split left block link) link split x := by
    intro x hx
    unfold setNext setSize
    rw [store64_outside (by omega), store64_outside (by omega)]
  have hinner : ∀ x, x < a + b.width → (x < split.toNat ∨ split.toNat + 32 ≤ x) →
      linkBack (writeHeader mem split left block link) link split x = mem x := by
    intro x h1 h2
    rw [linkBack_below hlink h1, writeHeader_outside h2]
  have hheader : HeaderAt (writeHeader mem split left block link) split.toNat block.toNat link.toNat
      ⟨left.toNat, true⟩ := writeHeader_headerAt
  have hplace : split.toNat = a + (32 + size.toNat) := by omega
  constructor
  · rw [chained_append xs (List.cons_ne_nil _ _), ha]
    refine ⟨hxs.congr fun x h1 h2 => ?_, ?_, ?_, ?_⟩
    · rw [houter x (by omega), hinner x (by omega) (by omega)]
    · have hmine := hb.congr fun x h1 h2 => hinner x (by omega) (by omega)
      rw [linkTo_cons, hkept, ← hplace]
      rw [← hblock] at hmine ⊢
      exact ((hmine.store split).2.2.store size).1
    · rw [hkept, ← hplace, show split.toNat + (⟨b.size - size.toNat - 32, true⟩ : Block).width =
        a + b.width by omega, ← hlink, ← hrest, ← hblock]
      refine hheader.congr fun x h1 h2 => ?_
      rw [houter x (by omega), linkBack_below hlink (by omega)]
    · have hlinked : Chained (linkBack (writeHeader mem split left block link) link split) 0
          split.toNat (a + b.width) ys :=
        linkBack_chained hlink (by omega) (hys.congr fun x h1 h2 => writeHeader_outside (by omega))
      rw [hkept, ← hplace, show split.toNat + (⟨b.size - size.toNat - 32, true⟩ : Block).width =
        a + b.width by omega]
      exact hlinked.congr fun x h1 h2 => houter x (by omega)
  · refine fun hmarked => hmarked.replace [] [_] ?_ (fun x h8 hmagic => ?_) (by simp)
    · simp only [extent_cons, extent_nil]
      omega
    · unfold setSize setNext at hmagic
      rw [load32_store64_of_disjoint (by omega), load32_store64_of_disjoint (by omega)] at hmagic
      have hheaders := linkBack_magic hlinkAligned (by omega) h8 hmagic
      rw [place_cons, place_nil, ha]
      rcases writeHeader_magic (by omega) (by omega) h8 hheaders with hnew | hold
      · exact Or.inr ⟨_, List.mem_singleton_self _, by dsimp only; omega⟩
      · exact Or.inl hold

end

/-- What `absorb` stores, with what it loads taken from the memory before. -/
theorem absorb_eq (next : UInt64) (h : block.toNat + 32 ≤ next.toNat) :
    absorb mem block next =
      setMagic (linkBack (setNext (setSize mem block
        (sizeAt mem block + (headerBytes + sizeAt mem next))) block (nextAt mem next))
        (nextAt mem next) block) next 0 := by
  unfold absorb nextAt setNext setSize
  dsimp only
  rw [load64_store64, load64_store64_of_disjoint (by omega)]

theorem absorb_rearranged {y : Block} (hfits : Fits base (xs ++ b :: y :: ys))
    (h : Chained mem 0 0 base (xs ++ b :: y :: ys))
    (hblock : block.toNat = base + extent Block.width xs) {next : UInt64}
    (hnext : next.toNat = base + extent Block.width xs + b.width) :
    Rearranged mem base (xs ++ b :: y :: ys) (absorb mem block next)
      (xs ++ ⟨b.size + 32 + y.size, b.free⟩ :: ys) := by
  obtain ⟨hxs, hb, hy, hys⟩ := h.middle
  obtain ⟨halign, _, hbsize, hend⟩ := hfits.middle
  have hysize := (hfits.sizes y (by simp)).2
  have hw : b.width = 32 + b.size := rfl
  have hwy : y.width = 32 + y.size := rfl
  have hmerged : (⟨b.size + 32 + y.size, b.free⟩ : Block).width = b.width + y.width := by
    simp only [Block.width]
    omega
  rw [extent_cons] at hend
  rw [absorb_eq next (by omega)]
  have hsizes : (sizeAt mem block + (headerBytes + sizeAt mem next)).toNat =
      b.size + 32 + y.size := by
    rw [UInt64.toNat_add, UInt64.toNat_add, hb.sizeAt hblock, hy.sizeAt hnext,
      show headerBytes.toNat = 32 from rfl]
    omega
  have hlink : (nextAt mem next).toNat =
      linkTo 0 (base + extent Block.width xs + b.width + y.width) ys := hy.nextAt hnext
  generalize sizeAt mem block + (headerBytes + sizeAt mem next) = size at hsizes
  generalize nextAt mem next = link at hlink
  have hlinkAligned : link.toNat % 16 = 0 := by
    rw [hlink]
    unfold linkTo
    split <;> omega
  generalize ha : base + extent Block.width xs = a at *
  -- below the blocks that follow, the memory is that after the first two stores
  have hbelow : ∀ x, x < a + b.width + y.width → (x < a + b.width + 24 ∨ a + b.width + 28 ≤ x) →
      setMagic (linkBack (setNext (setSize mem block size) block link) link block) next 0 x =
        setNext (setSize mem block size) block link x := by
    intro x h1 h2
    unfold setMagic
    rw [store32_outside (by omega), linkBack_below hlink h1]
  have hfirst : ∀ x, (x < a ∨ a + 24 ≤ x) →
      setNext (setSize mem block size) block link x = mem x := by
    intro x hx
    unfold setNext setSize
    rw [store64_outside (by omega), store64_outside (by omega)]
  constructor
  · rw [chained_append xs (List.cons_ne_nil _ ys), ha]
    refine ⟨hxs.congr fun x h1 h2 => ?_,
      HeaderAt.congr ?_ fun x h1 h2 => hbelow x (by omega) (by omega), ?_⟩
    · rw [hbelow x (by omega) (by omega), hfirst x (by omega)]
    · have hheader := ((hb.store size).1.store link).2.2
      rw [hsizes, hlink, Nat.add_assoc, ← hmerged, ← hblock] at hheader
      rw [← hblock]
      exact hheader
    · have hlinked : Chained (linkBack (setNext (setSize mem block size) block link) link block) 0
          block.toNat (a + b.width + y.width) ys :=
        linkBack_chained hlink (by omega) (hys.congr fun x h1 h2 => hfirst x (by omega))
      rw [hblock] at hlinked
      rw [hmerged, ← Nat.add_assoc]
      exact hlinked.congr fun x h1 h2 => store32_outside (by omega)
  · refine fun hmarked => hmarked.replace [y] [] ?_ (fun x h8 hmagic => Or.inl ?_) ?_
    · rw [extent_cons, hmerged, extent_cons, extent_cons, Nat.add_assoc]
    · have hne : x ≠ a + b.width + 24 := by
        rintro rfl
        unfold setMagic at hmagic
        rw [hnext, load32_store32] at hmagic
        exact absurd hmagic (by decide)
      unfold setMagic at hmagic
      rw [load32_store32_of_disjoint (by omega)] at hmagic
      have hold := linkBack_magic hlinkAligned (by omega) h8 hmagic
      unfold setNext setSize at hold
      rwa [load32_store64_of_disjoint (by omega), load32_store64_of_disjoint (by omega)] at hold
    · rw [place_cons, place_nil, List.forall_mem_singleton, ha, ← hnext]
      unfold setMagic
      rw [load32_store32]
      decide

end Middle

/-! ## The operations on the list -/

/-- The first block together with the second, if that is free. -/
def mergeHead : List Block → List Block
  | b :: y :: rest =>
    if y.free then ⟨b.size + 32 + y.size, b.free⟩ :: rest else b :: y :: rest
  | blocks => blocks

/-- What becomes of a block that is taken. -/
def taken (size : Nat) (b : Block) : List Block :=
  if size + 48 ≤ b.size then [⟨size, false⟩, ⟨b.size - size - 32, true⟩] else [⟨b.size, false⟩]

/-- What becomes of the blocks when one in the middle is given back. -/
def released (xs : List Block) (b : Block) (ys : List Block) : List Block :=
  match xs.getLast? with
  | none => mergeHead (⟨b.size, true⟩ :: ys)
  | some p =>
    if p.free then xs.dropLast ++ mergeHead (p :: mergeHead (⟨b.size, true⟩ :: ys))
    else xs ++ mergeHead (⟨b.size, true⟩ :: ys)

theorem released_nil (b : Block) (ys : List Block) :
    released [] b ys = mergeHead (⟨b.size, true⟩ :: ys) := rfl

theorem released_concat (xs : List Block) (p b : Block) (ys : List Block) :
    released (xs ++ [p]) b ys =
      if p.free then xs ++ mergeHead (p :: mergeHead (⟨b.size, true⟩ :: ys))
      else xs ++ p :: mergeHead (⟨b.size, true⟩ :: ys) := by
  unfold released
  rw [List.dropLast_concat]
  simp

theorem mergeHead_cases (b : Block) (ys : List Block) :
    (mergeHead (b :: ys) = b :: ys ∧ ∀ y ∈ ys.head?, y.free = false) ∨
      ∃ y rest, ys = y :: rest ∧ y.free = true ∧
        mergeHead (b :: ys) = ⟨b.size + 32 + y.size, b.free⟩ :: rest := by
  cases ys with
  | nil => exact Or.inl ⟨rfl, by simp⟩
  | cons y rest =>
    cases hy : y.free with
    | false => exact Or.inl ⟨by simp [mergeHead, hy], by simp [hy]⟩
    | true => exact Or.inr ⟨y, rest, rfl, hy, by simp [mergeHead, hy]⟩

theorem extent_mergeHead (blocks : List Block) :
    extent Block.width (mergeHead blocks) = extent Block.width blocks := by
  cases blocks with
  | nil => rfl
  | cons b ys =>
    rcases mergeHead_cases b ys with ⟨h, _⟩ | ⟨y, rest, rfl, _, h⟩
    · rw [h]
    · simp only [h, extent_cons, Block.width]
      omega

theorem Fits.mergeHead (h : Fits base (xs ++ blocks)) : Fits base (xs ++ mergeHead blocks) where
  base_pos := h.base_pos
  base_aligned := h.base_aligned
  end_lt := by
    rw [extent_append, extent_mergeHead, ← extent_append]
    exact h.end_lt
  sizes := by
    have hall := h.sizes
    cases blocks with
    | nil => exact hall
    | cons b ys =>
      rcases mergeHead_cases b ys with ⟨heq, _⟩ | ⟨y, rest, rfl, _, heq⟩
      · rw [heq]
        exact hall
      · rw [heq]
        simp only [List.forall_mem_append, List.forall_mem_cons] at hall ⊢
        obtain ⟨hxs, hb, hy, hrest⟩ := hall
        exact ⟨hxs, ⟨by omega, by omega⟩, hrest⟩

theorem Fits.replace (items items' : List Block) (h : Fits base (xs ++ (items ++ ys)))
    (hextent : extent Block.width items' = extent Block.width items)
    (hsizes : ∀ b ∈ items', b.size ≠ 0 ∧ b.size % 16 = 0) : Fits base (xs ++ (items' ++ ys)) where
  base_pos := h.base_pos
  base_aligned := h.base_aligned
  end_lt := by
    rw [extent_append, extent_append, hextent, ← extent_append, ← extent_append]
    exact h.end_lt
  sizes := by
    have hall := h.sizes
    simp only [List.forall_mem_append] at hall ⊢
    exact ⟨hall.1, hsizes, hall.2.2⟩

section Operations
variable {b : Block} {block : UInt64}

theorem extent_taken (b : Block) (size : Nat) :
    extent Block.width (taken size b) = extent Block.width [b] := by
  unfold taken
  split
  · simp only [extent_cons, extent_nil, Block.width]
    omega
  · rfl

theorem taken_sizes {size : Nat} (hne : size ≠ 0) (halign : size % 16 = 0)
    (hb : b.size ≠ 0 ∧ b.size % 16 = 0) : ∀ c ∈ taken size b, c.size ≠ 0 ∧ c.size % 16 = 0 := by
  unfold taken
  split
  · rw [List.forall_mem_cons, List.forall_mem_singleton]
    dsimp only
    omega
  · simpa using hb

theorem Fits.setFree (h : Fits base (xs ++ b :: ys)) (free : Bool) :
    Fits base (xs ++ ⟨b.size, free⟩ :: ys) :=
  Fits.replace [b] [⟨b.size, free⟩] h rfl (by
    simpa using h.sizes b (by simp))

theorem Fits.taken (h : Fits base (xs ++ b :: ys)) {size : Nat} (hne : size ≠ 0)
    (halign : size % 16 = 0) : Fits base (xs ++ (taken size b ++ ys)) :=
  Fits.replace [b] _ h (extent_taken b size)
    (taken_sizes hne halign (h.sizes b (by simp)))

theorem lastAt_concat (previous a : Nat) (xs : List Block) (p : Block) :
    lastAt previous a (xs ++ [p]) = a + extent Block.width xs := by
  induction xs generalizing previous a with
  | nil => simp [lastAt]
  | cons x xs ih => simp [lastAt, ih, Nat.add_assoc]

variable (hfits : Fits base (xs ++ b :: ys)) (h : Chained mem 0 0 base (xs ++ b :: ys))
  (hblock : block.toNat = base + extent Block.width xs)

include hfits h hblock

/-- The test of `kmalloc` for a block large enough to be split. -/
theorem splits_iff {size : UInt64} (hle : size.toNat ≤ b.size) :
    sizeAt mem block ≥ size + headerBytes + heapAlignment ↔ size.toNat + 48 ≤ b.size := by
  obtain ⟨_, hb, _⟩ := h.middle
  obtain ⟨_, _, _, hend⟩ := hfits.middle
  have hsum : (size + headerBytes + heapAlignment).toNat = size.toNat + 48 := by
    rw [UInt64.toNat_add, UInt64.toNat_add, show headerBytes.toNat = 32 from rfl,
      show heapAlignment.toNat = 16 from rfl]
    have hbase := hfits.base_pos
    have hbase' := hfits.base_aligned
    omega
  rw [ge_iff_le, UInt64.le_iff_toNat_le, hsum, hb.sizeAt hblock]

theorem takeBlock_rearranged {size : UInt64} (hne : size.toNat ≠ 0)
    (halign : size.toNat % 16 = 0) (hle : size.toNat ≤ b.size) :
    Rearranged mem base (xs ++ b :: ys) (takeBlock mem block size)
      (xs ++ (taken size.toNat b ++ ys)) := by
  obtain ⟨_, _, hbsize, _⟩ := hfits.middle
  have hcond := splits_iff hfits h hblock hle
  unfold takeBlock taken
  by_cases hroom : size.toNat + 48 ≤ b.size
  · rw [if_pos (hcond.mpr hroom), if_pos hroom]
    have hsplit := splitBlock_rearranged hfits h hblock halign hroom
    have hfits' :
        Fits base (xs ++ ⟨size.toNat, b.free⟩ :: ⟨b.size - size.toNat - 32, true⟩ :: ys) :=
      Fits.replace [b] [⟨size.toNat, b.free⟩, ⟨b.size - size.toNat - 32, true⟩] hfits (by
          simp only [extent_cons, extent_nil, Block.width]
          omega) (by
          rw [List.forall_mem_cons, List.forall_mem_singleton]
          dsimp only
          omega)
    exact hsplit.trans (setFree_rearranged hfits' hsplit.chained hblock false)
  · rw [if_neg (mt hcond.mp hroom), if_neg hroom]
    exact setFree_rearranged hfits h hblock false

theorem mergeWithNext_rearranged : Rearranged mem base (xs ++ b :: ys) (mergeWithNext mem block)
    (xs ++ mergeHead (b :: ys)) := by
  obtain ⟨_, hb, hys⟩ := h.middle
  have hnext := hb.nextAt hblock
  unfold mergeWithNext
  cases ys with
  | nil =>
    have hzero : nextAt mem block = 0 := UInt64.toNat_inj.mp hnext
    rw [if_pos (Or.inl hzero)]
    exact .refl h
  | cons y rest =>
    rw [linkTo_cons] at hnext
    obtain ⟨hy, _⟩ := hys
    have hfree := hy.freeAt hnext
    have hmagic := hy.magicAt hnext
    have hne : nextAt mem block ≠ 0 := by
      intro hz
      rw [hz] at hnext
      have := hfits.base_pos
      simp at hnext
      omega
    cases hyf : y.free with
    | false =>
      rw [if_pos (Or.inr (Or.inl (by rw [hfree, hyf]; rfl)))]
      simpa [mergeHead, hyf] using Rearranged.refl h
    | true =>
      have hgo : ¬ (nextAt mem block = 0 ∨ freeAt mem (nextAt mem block) = 0 ∨
          magicAt mem (nextAt mem block) ≠ heapBlockMagic) := by
        rw [hfree, hyf, hmagic]
        simp [hne]
      rw [if_neg hgo]
      simpa [mergeHead, hyf] using absorb_rearranged hfits h hblock hnext

theorem releaseBlock_rearranged :
    Rearranged mem base (xs ++ b :: ys) (releaseBlock mem block) (released xs b ys) := by
  have hfits1 := hfits.setFree true
  have hfits2 := hfits1.mergeHead
  have h1 := setFree_rearranged hfits h hblock true
  have h2 := h1.trans (mergeWithNext_rearranged hfits1 h1.chained hblock)
  obtain ⟨c, rest, htail⟩ : ∃ c rest, mergeHead (⟨b.size, true⟩ :: ys) = c :: rest := by
    rcases mergeHead_cases ⟨b.size, true⟩ ys with ⟨heq, _⟩ | ⟨_, _, _, _, heq⟩
    · exact ⟨_, _, heq⟩
    · exact ⟨_, _, heq⟩
  unfold releaseBlock
  dsimp only
  rw [show (1 : UInt32) = if true then 1 else 0 from rfl]
  generalize mergeWithNext (setFree mem block (if true then 1 else 0)) block = mem2 at h2
  have hprevious : (previousAt mem2 block).toNat = lastAt 0 base xs := by
    rw [htail] at h2
    obtain ⟨_, hc, _⟩ := h2.chained.middle
    exact hc.previousAt hblock
  rcases List.eq_nil_or_concat xs with rfl | ⟨front, p, rfl⟩
  · have hzero : previousAt mem2 block = 0 := UInt64.toNat_inj.mp hprevious
    rw [if_neg (by simp [hzero])]
    exact h2
  · rw [List.concat_eq_append] at *
    rw [lastAt_concat] at hprevious
    rw [released_concat]
    rw [← List.append_cons front p (mergeHead _)] at h2 hfits2
    obtain ⟨_, hp, _⟩ := h2.chained.middle
    have hfree := hp.freeAt hprevious
    have hne : previousAt mem2 block ≠ 0 := by
      intro hz
      rw [hz] at hprevious
      have := hfits.base_pos
      simp at hprevious
      omega
    cases hpf : p.free with
    | false =>
      rw [if_neg (by rw [hfree, hpf]; simp)]
      exact h2
    | true =>
      rw [if_pos ⟨hne, by rw [hfree, hpf]; decide⟩]
      exact h2.trans (mergeWithNext_rearranged hfits2 h2.chained hprevious)

end Operations

end ArgusOs.Heap
