/-
  The kernel map that `paging_init` builds: an identity map up to `mapped_bytes` with a hole at
  the stack guard page.

  The loop sets one leaf for each 2 MiB region (`mapRegions_built`), and the split of the guard's
  region replaces its leaf by a table of 512 pages and clears one of them (`unmap4kPage_split`).
  What an address translates to is then read off the leaves: region or page address, joined with
  flag bits that the address has no part in.
-/
import ArgusOs.Memory.Access
import ArgusOs.Memory.KernelPaging

namespace ArgusOs.Memory

open Lib Function

variable {info : KernelPaging} {s s' : Building} {address p root : UInt64} {r : Nat} {nx : Bool}
  {boot : PagingBoot} {acpi : AcpiInfo}

/-! ## Building the tree -/

/-- The allocator and the tables so far. -/
structure Built (s : Building) (root : UInt64) (tables : List Nat → Option UInt64)
    (leaves : List Nat → Nat → UInt64) : Prop where
  ok : PmmOk s.phys.pmm
  tree : ∃ frames, Held s.phys.pmm frames ∧ KernelTree s.phys.mem frames root tables leaves

/-- No region has been split. -/
def Unsplit (tables : List Nat → Option UInt64) : Prop :=
  ∀ path, tables path ≠ none → path.length ≤ 2

theorem allocateTable_spec (hok : PmmOk s.phys.pmm) :
    (allocateTable s).2 = 0 ∨
    ∃ child pmm, allocateTable s = (⟨⟨zeroPage s.phys.mem child, pmm⟩, s.tablePages + 1⟩, child) ∧
      child ≠ 0 ∧ PageAddress child ∧ PmmOk pmm ∧
      ∀ frames, Held s.phys.pmm frames → Held pmm (frameOf child :: frames) := by
  unfold allocateTable
  rcases pmmAllocPage_spec hok with h | ⟨child, pmm, h, hne, hpage, hok', -, -, hheld⟩
  · left
    rw [h]
    rfl
  · right
    refine ⟨child, pmm, ?_, hne, hpage, hok', hheld⟩
    rw [h]
    dsimp only
    rw [if_neg hne]

theorem zeroPage_entry (mem : Mem) (child : UInt64) (i : Nat) (hi : i < 512) :
    entryAt (zeroPage mem child) child i = 0 :=
  entryAt_zeroPage mem child hi

theorem fresh_of_held {pmm : Pmm} {frame : Nat} {frames : List Nat}
    (h : Held pmm (frame :: frames)) : frame ∉ frames :=
  (List.nodup_cons.mp h.nodup).1

section Levels

variable {tables : List Nat → Option UInt64} {leaves : List Nat → Nat → UInt64}

/-- One of the two upper levels: no page for a table, or the table of the tree is below it. -/
theorem tableBelow_spec (h : Built s root tables leaves) {path : List Nat} {table : UInt64}
    {index : Nat} (ht : tables path = some table) (hi : index < 512) (hlen : path.length < 2) :
    (tableBelow s table index).2 = none ∨
    ∃ s' child tables', tableBelow s table index = (s', some child) ∧
      Built s' root tables' leaves ∧ tables' (path ++ [index]) = some child ∧
      ∀ path', path' ≠ path ++ [index] → tables' path' = tables path' := by
  obtain ⟨frames, hheld, htree⟩ := h.tree
  unfold tableBelow
  cases hchild : tables (path ++ [index]) with
  | some child =>
    have hpage := (htree.page _ _ hchild).1
    rw [htree.link ht hi hchild, if_neg (kernelLink_present hpage), kernelLink_address hpage]
    exact Or.inr ⟨s, child, tables, rfl, h, hchild, fun _ _ => rfl⟩
  | none =>
    rw [htree.leaf_entry ht hi hchild, (htree.leaf path index).1 hlen, if_pos UInt64.zero_and]
    rcases allocateTable_spec h.ok with hnone | ⟨child, pmm, halloc, hne, hpage, hok, hheld'⟩
    · left
      generalize allocateTable s = r at hnone
      obtain ⟨s', address⟩ := r
      subst hnone
      rfl
    · right
      rw [halloc]
      dsimp only
      rw [if_neg hne, entryAt_setEntry]
      have hgrown := htree.grow ht hi hchild hpage (fresh_of_held (hheld' frames hheld))
        (zeroPage_sameOutside s.phys.mem hpage.1) (zeroPage_entry s.phys.mem child)
        (fun _ => leafAt_zero _)
      -- a table without leaves adds none
      have hleaves : update leaves (path ++ [index]) (fun _ => 0) = leaves := by
        funext path' index'
        by_cases hp : path' = path ++ [index]
        · subst hp
          rw [update_self, htree.bare _ _ hchild]
        · rw [update_of_ne hp]
      rw [hleaves] at hgrown
      refine ⟨⟨⟨setEntry (zeroPage s.phys.mem child) table index (kernelLink child), pmm⟩,
        s.tablePages + 1⟩, child, update tables (path ++ [index]) (some child), ?_,
          ⟨hok, frameOf child :: frames, hheld' frames hheld, hgrown⟩, update_self .., ?_⟩
      · exact congrArg (Prod.mk _) (congrArg some (kernelLink_address hpage))
      · intro path' hp
        exact update_of_ne hp ..

theorem mapLargePage_built (h : Built s root tables leaves) (hunsplit : Unsplit tables)
    {physical flags : UInt64}
    (hleaf : LeafAt 2 (physical ||| flags ||| pagePresent ||| pageWritable ||| pageLarge)) :
    (mapLargePage s root physical flags).2 = false ∨
    ∃ s' tables', mapLargePage s root physical flags = (s', true) ∧ Unsplit tables' ∧
      Built s' root tables' (setLeafAt leaves (directoryPath physical) (tableIndex physical 21)
        (physical ||| flags ||| pagePresent ||| pageWritable ||| pageLarge)) := by
  have hroot : tables [] = some root := h.tree.choose_spec.2.root
  have hlt := tableIndex_lt physical
  unfold mapLargePage
  rcases tableBelow_spec h hroot (hlt 39) (by decide) with hnone | ⟨s₁, pdpt, tables₁, hs₁, h₁,
    hpdpt, hsame₁⟩
  · left
    generalize tableBelow s root (tableIndex physical 39) = r at hnone
    obtain ⟨s', child⟩ := r
    subst hnone
    rfl
  rw [hs₁]
  dsimp only
  rcases tableBelow_spec h₁ hpdpt (hlt 30) (by simp) with hnone | ⟨s₂, pd, tables₂, hs₂, h₂,
    hpd, hsame₂⟩
  · left
    generalize tableBelow s₁ pdpt (tableIndex physical 30) = r at hnone
    obtain ⟨s', child⟩ := r
    subst hnone
    rfl
  right
  rw [hs₂]
  dsimp only
  have hunsplit₂ : Unsplit tables₂ := by
    intro path hpath
    by_cases hp₂ : path = [] ++ [tableIndex physical 39] ++ [tableIndex physical 30]
    · subst hp₂
      exact Nat.le_refl 2
    by_cases hp₁ : path = [] ++ [tableIndex physical 39]
    · subst hp₁
      exact Nat.le_succ 1
    rw [hsame₂ path hp₂, hsame₁ path hp₁] at hpath
    exact hunsplit path hpath
  obtain ⟨frames, hheld, htree⟩ := h₂.tree
  have hnone : tables₂ (regionPath physical) = none := by
    by_contra hc
    exact absurd (hunsplit₂ _ hc) (by simp [directoryPath])
  exact ⟨_, tables₂, rfl, hunsplit₂, h₂.ok, frames, hheld, htree.setLeaf hpd (hlt 21) hnone hleaf⟩

end Levels

/-! ## The leaf of a region -/

/-- The flags of a leaf beside its address: `nx` and `mmio` as the region has them. -/
def leafBits (nx mmio : Bool) : UInt64 :=
  (if mmio then (if nx then pageNx else 0) ||| (pagePcd ||| pagePwt)
    else if nx then pageNx else 0) |||
    pagePresent ||| pageWritable

def regionAddress (r : Nat) : UInt64 := UInt64.ofNat r * largePageSize

section Regions

variable (boot : PagingBoot) (acpi : AcpiInfo) (nx : Bool)

/-- The code of the kernel image has to stay executable. -/
def regionNx (address : UInt64) : Bool :=
  nx && !overlaps address largePageSize boot.kernelImage.base boot.kernelImage.size

def regionBits (address : UInt64) : UInt64 :=
  leafBits (regionNx boot nx address) (rangeIsMmio boot acpi address)

def regionEntry (r : Nat) : UInt64 :=
  regionAddress r ||| regionFlags boot acpi nx (regionAddress r) ||| pagePresent |||
    pageWritable |||
    pageLarge

/-- The leaves once the first `n` regions are mapped. -/
def regionLeaves (n : Nat) : List Nat → Nat → UInt64
  | [a, b], c =>
    if a < 512 ∧ b < 512 ∧ c < 512 ∧ (a * 512 + b) * 512 + c < n then
      regionEntry boot acpi nx ((a * 512 + b) * 512 + c)
    else 0
  | _, _ => 0

theorem regionEntry_eq (r : Nat) : regionEntry boot acpi nx r =
    regionAddress r ||| (regionBits boot acpi nx (regionAddress r) ||| pageLarge) := by
  unfold regionEntry regionBits leafBits regionFlags regionNx
  simp only [UInt64.or_assoc]

theorem regionAddress_toNat (hr : r < 2 ^ 27) : (regionAddress r).toNat = r * 2 ^ 21 := by
  unfold regionAddress largePageSize
  rw [UInt64.toNat_mul, UInt64.toNat_ofNat', show (0x200000 : UInt64).toNat = 2 ^ 21 from rfl]
  omega

/-- The indices of an address, in terms of its region and of its page in the region. -/
theorem tableIndex_region (address : UInt64) (h : address.toNat < 2 ^ 48) :
    tableIndex address 39 = address.toNat / 2 ^ 21 / 512 / 512 ∧
    tableIndex address 30 = address.toNat / 2 ^ 21 / 512 % 512 ∧
    tableIndex address 21 = address.toNat / 2 ^ 21 % 512 ∧
    tableIndex address 12 = address.toNat / 4096 % 512 := by
  rw [tableIndex_eq _ 39 (by decide), tableIndex_eq _ 30 (by decide),
    tableIndex_eq _ 21 (by decide), tableIndex_eq _ 12 (by decide),
    show (39 : UInt64).toNat = 39 from rfl,
    show (30 : UInt64).toNat = 30 from rfl, show (21 : UInt64).toNat = 21 from rfl,
    show (12 : UInt64).toNat = 12 from rfl]
  refine ⟨?_, ?_, ?_, ?_⟩ <;> omega

theorem regionLeaves_at (n : Nat) (h : address.toNat < 2 ^ 48) :
    regionLeaves boot acpi nx n (directoryPath address) (tableIndex address 21) =
      if address.toNat / 2 ^ 21 < n then regionEntry boot acpi nx (address.toNat / 2 ^ 21)
        else 0 := by
  obtain ⟨h39, h30, h21, -⟩ := tableIndex_region _ h
  have hregion : (tableIndex address 39 * 512 + tableIndex address 30) * 512 +
      tableIndex address 21 =
      address.toNat / 2 ^ 21 := by
    rw [h39, h30, h21]
    omega
  unfold directoryPath regionLeaves
  dsimp only
  rw [hregion]
  by_cases hn : address.toNat / 2 ^ 21 < n
  · rw [if_pos ⟨tableIndex_lt .., tableIndex_lt .., tableIndex_lt .., hn⟩, if_pos hn]
  · rw [if_neg (fun hc => hn hc.2.2.2), if_neg hn]

theorem regionLeaves_zero : regionLeaves boot acpi nx 0 = fun _ _ => 0 := by
  funext path index
  unfold regionLeaves
  split
  · exact if_neg (fun hc => Nat.not_lt_zero _ hc.2.2.2)
  · rfl

theorem regionLeaves_succ {n : Nat} (hn : n < 2 ^ 27) :
    setLeafAt (regionLeaves boot acpi nx n) (directoryPath (regionAddress n))
      (tableIndex (regionAddress n) 21) (regionEntry boot acpi nx n) =
    regionLeaves boot acpi nx (n + 1) := by
  have haddress := regionAddress_toNat hn
  obtain ⟨h39, h30, h21, -⟩ := tableIndex_region (regionAddress n) (by omega)
  have hquot : (regionAddress n).toNat / 2 ^ 21 = n := by omega
  rw [hquot] at h39 h30 h21
  funext path index
  unfold setLeafAt directoryPath
  rw [h39, h30, h21]
  match path with
  | [a, b] =>
    unfold regionLeaves
    dsimp only
    by_cases hplace : [a, b] = [n / 512 / 512, n / 512 % 512] ∧ index = n % 512
    · rw [if_pos hplace]
      obtain ⟨hpath, rfl⟩ := hplace
      rw [List.cons.injEq, List.cons.injEq] at hpath
      obtain ⟨rfl, rfl, -⟩ := hpath
      have hregion : (n / 512 / 512 * 512 + n / 512 % 512) * 512 + n % 512 = n := by omega
      rw [hregion, if_pos ⟨by omega, by omega, by omega, by omega⟩]
    · rw [if_neg hplace]
      by_cases hin : a < 512 ∧ b < 512 ∧ index < 512 ∧ (a * 512 + b) * 512 + index < n + 1
      · rw [if_pos hin, if_pos]
        refine ⟨hin.1, hin.2.1, hin.2.2.1, ?_⟩
        by_contra hc
        apply hplace
        refine ⟨?_, by omega⟩
        rw [List.cons.injEq, List.cons.injEq]
        exact ⟨by omega, by omega, rfl⟩
      · rw [if_neg hin, if_neg (fun hc => hin ⟨hc.1, hc.2.1, hc.2.2.1, by omega⟩)]
  | [] => exact if_neg (by simp)
  | [_] => exact if_neg (by simp)
  | _ :: _ :: _ :: _ => exact if_neg (by simp)

end Regions

/-! ## Addresses and flags -/

theorem PageAddress.masked (h : PageAddress p) : p &&& pageAddressMask = p := by
  apply UInt64.toNat_inj.mp
  have h1 := h.1
  have h2 := h.2
  rw [toNat_and_field _ _ 12 40 (by decide)]
  omega

/-- A page address has none of the bits that are flags. -/
theorem PageAddress.flag (h : PageAddress p) (bits : UInt64) {m : UInt64}
    (hm : ~~~pageAddressMask &&& m = m) : (p ||| bits) &&& m = bits &&& m := by
  have hzero : p &&& m = 0 := by
    rw [← h.masked, ← hm, UInt64.and_assoc, ← UInt64.and_assoc pageAddressMask,
      show pageAddressMask &&& ~~~pageAddressMask = 0 from by decide, UInt64.zero_and,
      UInt64.and_zero]
  rw [or_and_distrib, hzero, UInt64.zero_or]

/-- The flags of a 4 KiB leaf, or of a large one. -/
def IsLeafBits (nx mmio : Bool) (bits : UInt64) : Prop :=
  bits = leafBits nx mmio ∨ bits = leafBits nx mmio ||| pageLarge

section LeafBits

variable {mmio : Bool} {bits : UInt64} (h : IsLeafBits nx mmio bits)

include h

theorem IsLeafBits.flags : bits &&& pagePresent ≠ 0 ∧ bits &&& pageWritable ≠ 0 ∧
    bits &&& pageUser = 0 ∧ (bits &&& pageNx ≠ 0 ↔ nx = true) ∧
    (bits &&& pagePcd ≠ 0 ↔ mmio = true) ∧ (bits &&& pagePwt ≠ 0 ↔ mmio = true) := by
  rcases h with rfl | rfl <;> cases nx <;> cases mmio <;> decide

theorem IsLeafBits.noAddress : bits &&& pageAddressMask = 0 ∧ bits &&& largeAddressMask = 0 := by
  rcases h with rfl | rfl <;> cases nx <;> cases mmio <;> decide

end LeafBits

theorem leafBits_split (nx mmio : Bool) :
    ((leafBits nx mmio ||| pageLarge) &&& ~~~pageAddressMask) &&& ~~~pageLarge =
      leafBits nx mmio := by
  cases nx <;> cases mmio <;> decide

theorem leafBits_large (nx mmio : Bool) : (leafBits nx mmio ||| pageLarge) &&& pageLarge ≠ 0 := by
  cases nx <;> cases mmio <;> decide

theorem regionAddress_page (hr : r < 2 ^ 27) : PageAddress (regionAddress r) := by
  unfold PageAddress
  rw [regionAddress_toNat hr]
  omega

theorem regionEntry_leafAt (boot : PagingBoot) (acpi : AcpiInfo) (nx : Bool) (hr : r < 2 ^ 27) :
    LeafAt 2 (regionEntry boot acpi nx r) := by
  refine ⟨fun hc => absurd hc (by decide), fun _ _ => ?_⟩
  rw [regionEntry_eq, (regionAddress_page hr).flag _ (by decide)]
  exact leafBits_large _ _

/-! ## The loop -/

theorem mapRegions_built (n : Nat) (hn : n ≤ 2 ^ 27) {tables : List Nat → Option UInt64}
    (h : Built s root tables fun _ _ => 0) (hunsplit : Unsplit tables)
    (hrun : mapRegions boot acpi nx root n s = (s', true)) :
    ∃ tables', Unsplit tables' ∧ Built s' root tables' (regionLeaves boot acpi nx n) := by
  induction n generalizing s' with
  | zero =>
    obtain ⟨rfl, -⟩ := Prod.mk.inj hrun
    rw [regionLeaves_zero]
    exact ⟨tables, hunsplit, h⟩
  | succ n ih =>
    unfold mapRegions at hrun
    generalize hbefore : mapRegions boot acpi nx root n s = r at hrun
    obtain ⟨s₁, ok⟩ := r
    cases ok with
    | false => cases hrun
    | true =>
      obtain ⟨tables₁, hunsplit₁, h₁⟩ := ih (by omega) hbefore
      dsimp only at hrun
      rcases mapLargePage_built h₁ hunsplit₁ (regionEntry_leafAt boot acpi nx (show n < 2 ^ 27 by
        omega)) with
        hfalse | ⟨s₂, tables₂, hs₂, hunsplit₂, h₂⟩
      · have hdone :
            mapLargePage s₁ root (regionAddress n) (regionFlags boot acpi nx (regionAddress n)) =
            (s', true) := hrun
        rw [hdone] at hfalse
        cases hfalse
      · obtain ⟨rfl, -⟩ := Prod.mk.inj (hs₂.symm.trans hrun)
        refine ⟨tables₂, hunsplit₂, ?_⟩
        rw [← regionLeaves_succ boot acpi nx (show n < 2 ^ 27 by omega)]
        exact h₂

/-! ## The split -/

/-- The pages of a large page, as the loop of `unmap_4k_page` fills them in. -/
def splitContents (leaf : UInt64) (i : Nat) : UInt64 :=
  ((leaf &&& largeAddressMask) + UInt64.ofNat i * 4096) |||
    ((leaf &&& ~~~pageAddressMask) &&& ~~~pageLarge)

theorem fill_entries (f : Nat → UInt64) (mem : Mem) {pt : UInt64}
    (hpt : pt.toNat % 4096 = 0) (n : Nat) (hn : n ≤ 512) :
    let filled := (List.range n).foldl (fun mem i => setEntry mem pt i (f i)) mem
    SameOutside [frameOf pt] mem filled ∧ ∀ i, i < n → entryAt filled pt i = f i := by
  induction n with
  | zero => exact ⟨SameOutside.refl _ _, fun i hi => absurd hi (Nat.not_lt_zero i)⟩
  | succ n ih =>
    obtain ⟨hsame, hentries⟩ := ih (by omega)
    rw [List.range_succ, List.foldl_append]
    dsimp only [List.foldl_cons, List.foldl_nil]
    refine ⟨hsame.trans (setEntry_sameOutside _ hpt (by omega) _) (List.Subset.refl _), ?_⟩
    intro i hi
    by_cases hlast : i = n
    · subst hlast
      exact entryAt_setEntry ..
    · rw [entryAt_setEntry_of_ne _ _ hlast]
      exact hentries i (by omega)

theorem unmap4kPage_split {physical : UInt64} {tables : List Nat → Option UInt64}
    {leaves : List Nat → Nat → UInt64} (h : Built s root tables leaves) (hunsplit : Unsplit tables)
    (hrun : unmap4kPage s root physical = (s', true)) :
    leaves (directoryPath physical) (tableIndex physical 21) &&& pagePresent ≠ 0 ∧
    ∃ pt, Built s' root
      (update tables (regionPath physical) (some pt))
      (setLeafAt (update leaves (regionPath physical)
          (splitContents (leaves (directoryPath physical) (tableIndex physical 21))))
        (regionPath physical) (tableIndex physical 12) 0) := by
  obtain ⟨frames, hheld, htree⟩ := h.tree
  have hlt := tableIndex_lt physical
  have hnone : tables (regionPath physical) = none := by
    by_contra hc
    exact absurd (hunsplit _ hc) (by simp [directoryPath])
  unfold unmap4kPage at hrun
  dsimp only at hrun
  -- the two upper levels are there, or the run would have failed
  cases h1 : tables ([] ++ [tableIndex physical 39]) with
  | none =>
    rw [htree.leaf_entry htree.root (hlt 39) h1, (htree.leaf [] _).1 (by decide),
      if_pos UInt64.zero_and] at hrun
    cases hrun
  | some pdpt =>
  have hpdpt := (htree.page _ _ h1).1
  rw [htree.link htree.root (hlt 39) h1, if_neg (kernelLink_present hpdpt),
    kernelLink_address hpdpt] at hrun
  rw [List.nil_append] at h1
  cases h2 : tables ([tableIndex physical 39] ++ [tableIndex physical 30]) with
  | none =>
    rw [htree.leaf_entry h1 (hlt 30) h2, (htree.leaf [tableIndex physical 39] _).1 (by simp),
      if_pos UInt64.zero_and] at hrun
    cases hrun
  | some pd =>
  have hpd := (htree.page _ _ h2).1
  have hentry : entryAt s.phys.mem pd (tableIndex physical 21) =
      leaves (directoryPath physical) (tableIndex physical 21) := htree.leaf_entry h2 (hlt 21) hnone
  rw [htree.link h1 (hlt 30) h2, if_neg (kernelLink_present hpd), kernelLink_address hpd,
    hentry] at hrun
  generalize hleaf : leaves (directoryPath physical) (tableIndex physical 21) = leaf at hrun ⊢
  by_cases hpresent : leaf &&& pagePresent = 0
  · rw [if_pos hpresent] at hrun
    cases hrun
  have hlarge := (htree.leaf (directoryPath physical) (tableIndex physical 21)).2 rfl
  rw [hleaf] at hlarge
  rw [if_neg hpresent, if_pos (hlarge hpresent)] at hrun
  refine ⟨hpresent, ?_⟩
  rcases allocateTable_spec h.ok with hzero | ⟨pt, pmm, halloc, hne, hpage, hok, hheld'⟩
  · generalize allocateTable s = r at hzero hrun
    obtain ⟨s₁, address⟩ := r
    subst hzero
    rw [if_pos rfl] at hrun
    cases hrun
  rw [halloc] at hrun
  dsimp only at hrun
  rw [if_neg hne] at hrun
  obtain ⟨rfl, -⟩ := Prod.mk.inj hrun
  obtain ⟨hsame, hfilled⟩ := fill_entries (splitContents leaf) (zeroPage s.phys.mem pt) hpage.1 512
    (Nat.le_refl 512)
  have hgrown := htree.grow h2 (hlt 21) hnone hpage (fresh_of_held (hheld' frames hheld))
    ((zeroPage_sameOutside s.phys.mem hpage.1).trans hsame (List.Subset.refl _)) hfilled
    (fun i => ⟨fun hc => absurd hc (by simp), fun hc => absurd hc (by simp)⟩)
  have hbelow : update tables (regionPath physical) (some pt)
      (regionPath physical ++ [tableIndex physical 12]) = none := by
    rw [update_of_ne (by simp)]
    by_contra hc
    exact absurd (hunsplit _ hc) (by simp [directoryPath])
  have hset := hgrown.setLeaf (update_self ..) (hlt 12) hbelow
    (show LeafAt _ 0 from leafAt_zero _)
  exact ⟨pt, hok, frameOf pt :: frames, hheld' frames hheld, hset⟩

/-! ## The end of the map -/

theorem foldl_max_le (l : List UInt64) (start : UInt64) :
    start ≤ l.foldl (fun maximum candidate =>
      if candidate > maximum then candidate else maximum) start ∧
    ∀ c ∈ l, c ≤ l.foldl (fun maximum candidate =>
      if candidate > maximum then candidate else maximum) start := by
  induction l generalizing start with
  | nil => exact ⟨UInt64.le_refl _, fun c hc => absurd hc List.not_mem_nil⟩
  | cons x rest ih =>
    rw [List.foldl_cons]
    obtain ⟨hstart, hrest⟩ := ih (if x > start then x else start)
    have hstep : start ≤ (if x > start then x else start) ∧
        x ≤ (if x > start then x else start) := by
      split
      · next hgt => exact ⟨UInt64.le_of_lt hgt, UInt64.le_refl _⟩
      · next hle => exact ⟨UInt64.le_refl _, UInt64.not_lt.mp hle⟩
    refine ⟨UInt64.le_trans hstep.1 hstart, ?_⟩
    intro c hc
    rcases List.mem_cons.mp hc with rfl | hc
    · exact UInt64.le_trans hstep.2 hstart
    · exact hrest c hc

theorem mapEnd_spec {maximum : UInt64} (h : mapEnd boot acpi = some maximum) :
    maximum.toNat % 2 ^ 21 = 0 ∧ maximum.toNat ≤ 2 ^ 47 ∧
      (highestAddress boot acpi).toNat ≤ 2 ^ 47 ∧ (highestAddress boot acpi).toNat ≤
        maximum.toNat := by
  unfold mapEnd at h
  dsimp only at h
  by_cases hbad : highestAddress boot acpi = 0 ∨ highestAddress boot acpi > (1 : UInt64) <<< 47
  · rw [if_pos hbad] at h
    cases h
  rw [if_neg hbad] at h
  rw [not_or] at hbad
  have hle : (highestAddress boot acpi).toNat ≤ 2 ^ 47 :=
    UInt64.le_iff_toNat_le.mp (UInt64.not_lt.mp hbad.2)
  by_cases hbig : highestAddress boot acpi > 0xFFFFFFFFFFFFFFFF - (largePageSize - 1)
  · rw [if_pos hbig] at h
    cases h
  rw [if_neg hbig, Option.some.injEq] at h
  have hsum : (highestAddress boot acpi + largePageSize - 1).toNat =
      (highestAddress boot acpi).toNat + 2 ^ 21 - 1 := by
    have hadd : (highestAddress boot acpi + largePageSize).toNat =
      (highestAddress boot acpi).toNat + 2 ^ 21 := by
      rw [UInt64.toNat_add, show largePageSize.toNat = 2 ^ 21 from rfl]
      omega
    rw [UInt64.toNat_sub_of_le _ _ (by
      rw [UInt64.le_iff_toNat_le, hadd]
      exact Nat.le_trans (by decide) (Nat.le_add_left _ _)), hadd]
    rfl
  rw [← h, toNat_and_field _ _ 21 43 (by decide), hsum]
  omega

/-- The end of a range that is not beyond the map has not been saturated. -/
theorem rangeEnd_exact {range : PhysicalRange} (h : (rangeEnd range).toNat ≤ 2 ^ 47) :
    range.base.toNat + range.size.toNat = (rangeEnd range).toNat := by
  unfold rangeEnd saturatedEnd at h ⊢
  by_cases hsat : range.base > 0xFFFFFFFFFFFFFFFF - range.size
  · rw [if_pos hsat] at h
    exact absurd h (by decide)
  · have hle := UInt64.le_iff_toNat_le.mp (UInt64.not_lt.mp hsat)
    have hsize := range.size.toNat_lt
    rw [toNat_room] at hle
    rw [if_neg hsat, UInt64.toNat_add]
    omega

theorem candidate_le {c : UInt64} (h : c ∈ candidates boot acpi) :
    c.toNat ≤ (highestAddress boot acpi).toNat :=
  UInt64.le_iff_toNat_le.mp ((foldl_max_le (candidates boot acpi) _).2 c h)

/-- The stack guard page lies below 2^47, at the start of a page. -/
theorem guard_bounds (hstack : stackRejected boot = false)
    (hhigh : (highestAddress boot acpi).toNat ≤ 2 ^ 47) :
    boot.kernelStackGuard.base.toNat % 4096 = 0 ∧ boot.kernelStackGuard.base.toNat < 2 ^ 48 := by
  have hchecks := of_decide_eq_false hstack
  push Not at hchecks
  obtain ⟨-, hbase, -, halign, -⟩ := hchecks
  have hend : (rangeEnd boot.kernelStack).toNat ≤ 2 ^ 47 :=
    Nat.le_trans (candidate_le (show _ ∈ candidates boot acpi by simp [candidates])) hhigh
  have hexact := rangeEnd_exact hend
  refine ⟨and_4095_eq_zero.mp halign, ?_⟩
  rw [hbase]
  omega

/-! ## What an address translates to -/

/-- The 2 MiB region of an address. -/
def regionBase (address : UInt64) : UInt64 := address &&& ~~~(largePageSize - 1)

theorem regionBase_eq (h : address.toNat < 2 ^ 48) :
    regionBase address = regionAddress (address.toNat / 2 ^ 21) := by
  apply UInt64.toNat_inj.mp
  unfold regionBase
  rw [regionAddress_toNat (by omega), toNat_and_field _ _ 21 43 (by decide)]
  omega

/-- The mapping of an address to itself, for the kernel only, with the flags of its region. -/
structure IdentityLeaf (boot : PagingBoot) (acpi : AcpiInfo) (nx : Bool) (address : UInt64)
    (mapping : Mapping) : Prop where
  physical : mapping.physical = address
  present : mapping.leaf &&& pagePresent ≠ 0
  writable : mapping.writable = true
  supervisor : mapping.user = false
  noExecute : mapping.leaf &&& pageNx ≠ 0 ↔
    nx = true ∧
    overlaps (regionBase address) largePageSize boot.kernelImage.base boot.kernelImage.size = false
  cacheDisabled : mapping.leaf &&& pagePcd ≠ 0 ↔ rangeIsMmio boot acpi (regionBase address) = true
  writeThrough : mapping.leaf &&& pagePwt ≠ 0 ↔ rangeIsMmio boot acpi (regionBase address) = true

/-- The kernel image can be executed. -/
theorem IdentityLeaf.kernelImage_executable {mapping : Mapping}
    (h : IdentityLeaf boot acpi nx address mapping)
    (hlow : boot.kernelImage.base ≤ address) (haddress : address.toNat < 2 ^ 48)
    (hhigh : address.toNat < boot.kernelImage.base.toNat + boot.kernelImage.size.toNat) :
    mapping.leaf &&& pageNx = 0 := by
  by_contra hnx
  obtain ⟨-, hoverlaps⟩ := h.noExecute.mp hnx
  have hregion : (regionBase address).toNat = address.toNat / 2 ^ 21 * 2 ^ 21 := by
    rw [regionBase_eq haddress, regionAddress_toNat (by omega)]
  refine Bool.false_ne_true (hoverlaps.symm.trans (overlaps_iff.mpr ⟨address.toNat, ?_, ?_⟩))
  · rw [saturatedEnd_toNat, hregion, show largePageSize.toNat = 2 ^ 21 from rfl]
    omega
  · rw [saturatedEnd_toNat]
    exact ⟨UInt64.le_iff_toNat_le.mp hlow, by omega⟩
theorem identityLeaf_of {bits mask offset : UInt64} (hp : PageAddress p)
    (hbits : IsLeafBits (regionNx boot nx (regionBase address))
      (rangeIsMmio boot acpi (regionBase address)) bits)
    (hmask : (p ||| bits) &&& mask = p) (haddress : p ||| (address &&& offset) = address) :
    IdentityLeaf boot acpi nx address
      (leafMapping true false (p ||| bits) mask address offset) := by
  obtain ⟨hpresent, hwritable, huser, hnx, hpcd, hpwt⟩ := hbits.flags
  refine ⟨?_, ?_, ?_, rfl, ?_, ?_, ?_⟩
  · show ((p ||| bits) &&& mask) ||| (address &&& offset) = address
    rw [hmask, haddress]
  · show (p ||| bits) &&& pagePresent ≠ 0
    rw [hp.flag _ (by decide)]
    exact hpresent
  · show (true && decide ((p ||| bits) &&& pageWritable ≠ 0)) = true
    rw [hp.flag _ (by decide), Bool.true_and, decide_eq_true hwritable]
  · show (p ||| bits) &&& pageNx ≠ 0 ↔ _
    rw [hp.flag _ (by decide), hnx]
    unfold regionNx
    rw [Bool.and_eq_true, Bool.not_eq_true']
  · show (p ||| bits) &&& pagePcd ≠ 0 ↔ _
    rw [hp.flag _ (by decide)]
    exact hpcd
  · show (p ||| bits) &&& pagePwt ≠ 0 ↔ _
    rw [hp.flag _ (by decide)]
    exact hpwt

theorem regionAddress_masked (hr : r < 2 ^ 27) :
    regionAddress r &&& largeAddressMask = regionAddress r := by
  apply UInt64.toNat_inj.mp
  rw [toNat_and_field _ _ 21 31 (by decide), regionAddress_toNat hr]
  omega

section Leaves

variable (boot : PagingBoot) (acpi : AcpiInfo) (nx : Bool) (h : address.toNat < 2 ^ 48)

include h

theorem region_bits : IsLeafBits (regionNx boot nx (regionBase address))
      (rangeIsMmio boot acpi (regionBase address))
      (regionBits boot acpi nx (regionAddress (address.toNat / 2 ^ 21))) := by
  rw [regionBase_eq h]
  exact Or.inl rfl

/-- The leaf of a region maps each of its addresses to itself. -/
theorem regionEntry_identity : IdentityLeaf boot acpi nx address
    (leafMapping true false (regionEntry boot acpi nx (address.toNat / 2 ^ 21))
      largeAddressMask address
      0x1FFFFF) := by
  have hr : address.toNat / 2 ^ 21 < 2 ^ 27 := by omega
  have hbits : IsLeafBits (regionNx boot nx (regionBase address))
      (rangeIsMmio boot acpi (regionBase address))
      (regionBits boot acpi nx (regionAddress (address.toNat / 2 ^ 21)) ||| pageLarge) := by
    rw [regionBase_eq h]
    exact Or.inr rfl
  rw [regionEntry_eq]
  refine identityLeaf_of (regionAddress_page hr) hbits ?_ ?_
  · rw [or_and_distrib, regionAddress_masked hr, hbits.noAddress.2, UInt64.or_zero]
  · apply UInt64.toNat_inj.mp
    have hlow : (address &&& 0x1FFFFF).toNat = address.toNat % 2 ^ 21 := toNat_and_low _ _ 21 rfl
    rw [toNat_or_of_lt _ _ 21 (by rw [regionAddress_toNat hr]; omega) (by rw [hlow]; omega),
      regionAddress_toNat hr, hlow]
    omega

theorem splitContents_eq : splitContents (regionEntry boot acpi nx (address.toNat / 2 ^ 21))
      (tableIndex address 12) =
    (regionAddress (address.toNat / 2 ^ 21) + UInt64.ofNat (tableIndex address 12) * 4096) |||
      regionBits boot acpi nx (regionAddress (address.toNat / 2 ^ 21)) := by
  have hr : address.toNat / 2 ^ 21 < 2 ^ 27 := by omega
  have hbase : regionEntry boot acpi nx (address.toNat / 2 ^ 21) &&& largeAddressMask =
      regionAddress (address.toNat / 2 ^ 21) := by
    have hbits : IsLeafBits (regionNx boot nx (regionAddress (address.toNat / 2 ^ 21)))
        (rangeIsMmio boot acpi (regionAddress (address.toNat / 2 ^ 21)))
        (regionBits boot acpi nx (regionAddress (address.toNat / 2 ^ 21)) ||| pageLarge) :=
          Or.inr rfl
    rw [regionEntry_eq, or_and_distrib, regionAddress_masked hr, hbits.noAddress.2, UInt64.or_zero]
  have hflags : (regionEntry boot acpi nx (address.toNat / 2 ^ 21) &&& ~~~pageAddressMask) &&&
      ~~~pageLarge =
      regionBits boot acpi nx (regionAddress (address.toNat / 2 ^ 21)) := by
    rw [regionEntry_eq, (regionAddress_page hr).flag _ (by decide)]
    exact leafBits_split _ _
  unfold splitContents
  rw [hbase, hflags]

/-- So does the leaf of a page of a region that has been split. -/
theorem splitContents_identity : IdentityLeaf boot acpi nx address
    (leafMapping true false
      (splitContents (regionEntry boot acpi nx (address.toNat / 2 ^ 21)) (tableIndex address 12))
      pageAddressMask address 4095) := by
  have hr : address.toNat / 2 ^ 21 < 2 ^ 27 := by omega
  have hpage : (regionAddress (address.toNat / 2 ^ 21) + UInt64.ofNat (tableIndex address 12) *
      4096).toNat =
      address.toNat / 4096 * 4096 := by
    rw [UInt64.toNat_add, regionAddress_toNat hr, UInt64.toNat_mul, UInt64.toNat_ofNat',
      (tableIndex_region _ h).2.2.2, show (4096 : UInt64).toNat = 4096 from rfl]
    omega
  have hp : PageAddress (regionAddress (address.toNat / 2 ^ 21) +
      UInt64.ofNat (tableIndex address 12) * 4096) := by
    unfold PageAddress
    rw [hpage]
    omega
  rw [splitContents_eq boot acpi nx h]
  refine identityLeaf_of hp (region_bits boot acpi nx h) ?_ ?_
  · rw [or_and_distrib, hp.masked, (region_bits boot acpi nx h).noAddress.1, UInt64.or_zero]
  · apply UInt64.toNat_inj.mp
    have hlow : (address &&& 4095).toNat = address.toNat % 2 ^ 12 := toNat_and_low _ _ 12 rfl
    rw [toNat_or_of_lt _ _ 12 (by rw [hpage]; omega) (by rw [hlow]; omega), hpage, hlow]
    omega

end Leaves

/-! ## The map -/

theorem rootTree {mem : Mem} (hroot : PageAddress root) :
    KernelTree (zeroPage mem root) [frameOf root] root
      (update (fun _ => none) [] (some root)) fun _ _ => 0 := by
  have honly : ∀ (path : List Nat) (table : UInt64),
      update (fun _ => none) [] (some root) path = some table → path = [] ∧ table = root := by
    intro path table ht
    by_cases hp : path = []
    · subst hp
      rw [update_self, Option.some.injEq] at ht
      exact ⟨rfl, ht.symm⟩
    · rw [update_of_ne hp] at ht
      cases ht
  refine ⟨update_self .., ?_, ?_, ?_, fun _ _ _ => rfl, fun _ _ => leafAt_zero _, ?_⟩
  · intro path table ht
    obtain ⟨-, rfl⟩ := honly path table ht
    exact ⟨hroot, List.mem_singleton_self _⟩
  · intro path path' table h h'
    rw [(honly path table h).1, (honly path' table h').1]
  · intro path index hc
    obtain ⟨table, htable⟩ := Option.ne_none_iff_exists'.mp hc
    exact absurd (honly _ table htable).1 (by simp)
  · intro path table index ht hi
    obtain ⟨rfl, rfl⟩ := honly path table ht
    unfold treeEntry
    rw [update_of_ne (by simp), entryAt_zeroPage mem table hi]

/-- What the tables are when `paging_init` succeeds. -/
theorem pagingInit_tree (hok : PmmOk s.phys.pmm) (h : pagingInit boot acpi nx s = (s', some info)) :
    info.rootTable ≠ 0 ∧ ∃ pt tables, stackRejected boot = false ∧
      mapEnd boot acpi = some info.mappedBytes ∧ info.stackGuardPage = boot.kernelStackGuard.base ∧
      Unsplit tables ∧
      let guard := boot.kernelStackGuard.base
      let leaves := regionLeaves boot acpi nx (info.mappedBytes / largePageSize).toNat
      let region := regionPath guard
      leaves (directoryPath guard) (tableIndex guard 21) &&& pagePresent ≠ 0 ∧
      Built s' info.rootTable (update tables region (some pt))
        (setLeafAt (update leaves region
          (splitContents (leaves (directoryPath guard) (tableIndex guard 21)))) region
          (tableIndex guard 12) 0) := by
  unfold pagingInit at h
  by_cases hstack : stackRejected boot = true
  · rw [if_pos hstack] at h
    cases h
  rw [if_neg hstack] at h
  cases hend : mapEnd boot acpi with
  | none =>
    rw [hend] at h
    cases h
  | some maximum =>
  rw [hend] at h
  dsimp only at h
  rcases allocateTable_spec (s := { s with tablePages := 0 }) hok with
    hzero | ⟨root, pmm, halloc, hne, hpage, hok', hheld⟩
  · generalize allocateTable { s with tablePages := 0 } = r at hzero h
    obtain ⟨s₁, address⟩ := r
    subst hzero
    rw [if_pos rfl] at h
    cases h
  rw [halloc] at h
  dsimp only at h
  rw [if_neg hne] at h
  have hbuilt : Built ⟨⟨zeroPage s.phys.mem root, pmm⟩, 0 + 1⟩ root
      (update (fun _ => none) [] (some root)) fun _ _ => 0 :=
    ⟨hok', [frameOf root], hheld [] (Held.nil _), rootTree hpage⟩
  have hunsplit : Unsplit (update (fun _ => none) [] (some root)) := by
    intro path hpath
    by_cases hp : path = []
    · subst hp
      exact Nat.zero_le 2
    · rw [update_of_ne hp] at hpath
      exact absurd rfl hpath
  obtain ⟨-, hle, -⟩ := mapEnd_spec hend
  have hcount : (maximum / largePageSize).toNat ≤ 2 ^ 27 := by
    rw [UInt64.toNat_div, show largePageSize.toNat = 2 ^ 21 from rfl]
    omega
  generalize hloop : mapRegions boot acpi nx root (maximum / largePageSize).toNat
    ⟨⟨zeroPage s.phys.mem root, pmm⟩, 0 + 1⟩ = r at h
  obtain ⟨s₂, ok⟩ := r
  cases ok with
  | false => cases h
  | true =>
  obtain ⟨tables, hunsplit', hbuilt'⟩ := mapRegions_built _ hcount hbuilt hunsplit hloop
  dsimp only at h
  generalize hunmap : unmap4kPage s₂ root boot.kernelStackGuard.base = r at h
  obtain ⟨s₃, ok⟩ := r
  cases ok with
  | false => cases h
  | true =>
  dsimp only at h
  obtain ⟨rfl, hinfo⟩ := Prod.mk.inj h
  rw [Option.some.injEq] at hinfo
  subst hinfo
  obtain ⟨hpresent, pt, htree⟩ := unmap4kPage_split hbuilt' hunsplit' hunmap
  exact ⟨hne, pt, tables, Bool.eq_false_iff.mpr hstack, rfl, rfl, hunsplit', hpresent, htree⟩

/-- What `paging_init` leaves the processes to build on. -/
theorem pagingInit_kernelHeld (hok : PmmOk s.phys.pmm)
    (h : pagingInit boot acpi nx s = (s', some info)) :
    ∃ frames, KernelHeld s'.phys ⟨info.rootTable, nx⟩ frames := by
  obtain ⟨-, pt, tables, -, -, -, -, -, hok', frames, hheld, htree⟩ := pagingInit_tree hok h
  exact ⟨frames, hok', hheld, htree.tables_held, htree.kernelRoot nx⟩

/-- The leaves `paging_init` ends with: `n` regions, the one with the stack guard split, and the
    guard page taken out. -/
def guardedLeaves (boot : PagingBoot) (acpi : AcpiInfo) (nx : Bool) (n : Nat) (guard : UInt64) :
    List Nat → Nat → UInt64 :=
  setLeafAt (update (regionLeaves boot acpi nx n)
      (regionPath guard)
      (splitContents (regionEntry boot acpi nx (guard.toNat / 2 ^ 21))))
    (regionPath guard) (tableIndex guard 12) 0

section Guarded

variable {boot : PagingBoot} {acpi : AcpiInfo} {nx : Bool} {n : Nat} {mem : Mem} {frames : List Nat}
  {root guard pt address : UInt64} {tables : List Nat → Option UInt64}
  (htree : KernelTree mem frames root
    (update tables (regionPath guard) (some pt))
    (guardedLeaves boot acpi nx n guard))
  (hunsplit : Unsplit tables) (haddress : address.toNat < 2 ^ 48) (hguard : guard.toNat < 2 ^ 48)

include htree hunsplit haddress hguard

/-- In the region that was split the walk ends in the new table. -/
theorem translate_split_region (hregion : address.toNat / 2 ^ 21 = guard.toNat / 2 ^ 21) :
    (address.toNat / 4096 = guard.toNat / 4096 → translate mem root address = none) ∧
    (address.toNat / 4096 ≠ guard.toNat / 4096 →
      ∃ mapping, translate mem root address = some mapping ∧
        IdentityLeaf boot acpi nx address mapping) := by
  obtain ⟨a39, a30, a21, a12⟩ := tableIndex_region _ haddress
  obtain ⟨g39, g30, g21, g12⟩ := tableIndex_region _ hguard
  have hpath : regionPath address = regionPath guard := by
    unfold regionPath directoryPath
    rw [a39, a30, a21, g39, g30, g21, hregion]
  have hsmall := htree.translate_small address
    (by rw [hpath, update_self])
    (by
      rw [hpath, update_of_ne (by simp)]
      by_contra hc
      exact absurd (hunsplit _ hc) (by simp [directoryPath]))
  rw [hpath] at hsmall
  have hpage : address.toNat / 4096 = guard.toNat / 4096 ↔
      tableIndex address 12 = tableIndex guard 12 := by
    rw [a12, g12]
    omega
  have hleaf : guardedLeaves boot acpi nx n guard (regionPath guard)
      (tableIndex address 12) =
      if tableIndex address 12 = tableIndex guard 12 then 0
      else splitContents (regionEntry boot acpi nx (address.toNat / 2 ^ 21))
        (tableIndex address 12) := by
    unfold guardedLeaves setLeafAt
    rw [update_self, hregion]
    exact if_congr ⟨fun hc => hc.2, fun hc => ⟨rfl, hc⟩⟩ rfl rfl
  rw [hleaf] at hsmall
  dsimp only at hsmall
  rw [hsmall]
  constructor
  · intro hsame
    rw [if_pos (hpage.mp hsame), if_pos UInt64.zero_and]
  · intro hne
    have hidentity := splitContents_identity boot acpi nx haddress
    have hleafPresent : splitContents (regionEntry boot acpi nx (address.toNat / 2 ^ 21))
        (tableIndex address 12) &&& pagePresent ≠ 0 := hidentity.present
    rw [if_neg (hpage.not.mp hne), if_neg hleafPresent]
    exact ⟨_, rfl, hidentity⟩

/-- The leaf of any other region is as the loop left it. -/
theorem translate_other_region (hregion : address.toNat / 2 ^ 21 ≠ guard.toNat / 2 ^ 21) :
    (¬ address.toNat / 2 ^ 21 < n → translate mem root address = none) ∧
    (address.toNat / 2 ^ 21 < n →
      ∃ mapping, translate mem root address = some mapping ∧
        IdentityLeaf boot acpi nx address mapping) := by
  obtain ⟨a39, a30, a21, -⟩ := tableIndex_region _ haddress
  obtain ⟨g39, g30, g21, -⟩ := tableIndex_region _ hguard
  have hpath : regionPath address ≠ regionPath guard := by
    unfold regionPath directoryPath
    rw [a39, a30, a21, g39, g30, g21]
    intro hc
    simp only [List.cons_append, List.nil_append, List.cons.injEq] at hc
    omega
  have hlarge := htree.translate_large address
    (by
      rw [update_of_ne hpath]
      by_contra hc
      exact absurd (hunsplit _ hc) (by simp [directoryPath]))
  have hleaf : guardedLeaves boot acpi nx n guard (directoryPath address) (tableIndex address 21) =
      if address.toNat / 2 ^ 21 < n then regionEntry boot acpi nx (address.toNat / 2 ^ 21)
        else 0 := by
    have hlen : directoryPath address ≠ regionPath guard := by
      intro hc
      have := congrArg List.length hc
      simp [directoryPath] at this
    unfold guardedLeaves setLeafAt
    rw [if_neg (fun hc => hlen hc.1), update_of_ne hlen, regionLeaves_at boot acpi nx n haddress]
  rw [hleaf] at hlarge
  rw [hlarge]
  constructor
  · intro hout
    rw [if_neg hout, if_pos UInt64.zero_and]
  · intro hin
    have hidentity := regionEntry_identity boot acpi nx haddress
    have hleafPresent : regionEntry boot acpi nx (address.toNat / 2 ^ 21) &&& pagePresent ≠ 0 :=
      hidentity.present
    rw [if_pos hin, if_neg hleafPresent]
    exact ⟨_, rfl, hidentity⟩

end Guarded

/-- The kernel map is the identity up to `mapped_bytes`, for the kernel only, with the flags of
    each 2 MiB region, except for the stack guard page; nothing is mapped above. -/
theorem kernel_map_identity {boot : PagingBoot} {acpi : AcpiInfo} {nx : Bool} {s s' : Building}
    {info : KernelPaging} (hok : PmmOk s.phys.pmm)
    (h : pagingInit boot acpi nx s = (s', some info)) :
    info.stackGuardPage = boot.kernelStackGuard.base ∧
    ∀ address : UInt64, address.toNat < 2 ^ 48 →
      (info.mappedBytes ≤ address → translate s'.phys.mem info.rootTable address = none) ∧
      (address.toNat / 4096 = info.stackGuardPage.toNat / 4096 →
        translate s'.phys.mem info.rootTable address = none) ∧
      (address < info.mappedBytes → address.toNat / 4096 ≠ info.stackGuardPage.toNat / 4096 →
        ∃ mapping, translate s'.phys.mem info.rootTable address = some mapping ∧
          IdentityLeaf boot acpi nx address mapping) := by
  obtain ⟨-, pt, tables, hstack, hend, hguard, hunsplit, hpresent, -, frames, -, htree⟩ :=
    pagingInit_tree hok h
  obtain ⟨hmultiple, -, hhigh, -⟩ := mapEnd_spec hend
  obtain ⟨hguardAlign, hguardLt⟩ := guard_bounds hstack hhigh
  refine ⟨hguard, ?_⟩
  intro address haddress
  rw [hguard]
  generalize boot.kernelStackGuard.base = guard at hpresent htree hguardAlign hguardLt
  have hcount : (info.mappedBytes / largePageSize).toNat = info.mappedBytes.toNat / 2 ^ 21 :=
    UInt64.toNat_div ..
  have hmapped : address < info.mappedBytes ↔
      address.toNat / 2 ^ 21 < (info.mappedBytes / largePageSize).toNat := by
    rw [UInt64.lt_iff_toNat_lt, hcount]
    omega
  rw [← UInt64.not_lt, hmapped]
  rw [regionLeaves_at boot acpi nx _ hguardLt] at hpresent htree
  generalize (info.mappedBytes / largePageSize).toNat = n at hpresent htree hmapped ⊢
  have hguardIn : guard.toNat / 2 ^ 21 < n := by
    by_contra hc
    rw [if_neg hc] at hpresent
    exact hpresent UInt64.zero_and
  rw [if_pos hguardIn] at htree
  by_cases hregion : address.toNat / 2 ^ 21 = guard.toNat / 2 ^ 21
  · obtain ⟨hsame, hother⟩ := translate_split_region htree hunsplit haddress hguardLt hregion
    exact ⟨fun hout => absurd (hregion ▸ hguardIn) hout, hsame, fun _ => hother⟩
  · obtain ⟨hout, hin⟩ := translate_other_region htree hunsplit haddress hguardLt hregion
    refine ⟨hout, ?_, fun h _ => hin h⟩
    intro hpage
    omega

/-- A machine of four mebibytes with the kernel image, the stack and its guard in the first
    two. -/
def sampleBoot : PagingBoot where
  magic := argusBootInfoMagic
  bootServicesExited := 1
  memoryMapBuffer := 0x190000
  descriptorSize := 48
  memoryMap := [⟨efiConventionalMemory, 0x100000, 0x300⟩, ⟨efiMemoryMappedIo, 0xFEC00000, 1⟩]
  framebuffer := ⟨0, 0⟩
  acpiRsdp := 0xF0000
  kernelImage := ⟨0x110000, 0x20000⟩
  bootInfoStorage := ⟨0x140000, 0x1000⟩
  kernelStack := ⟨0x180000, 0x4000⟩
  pmmBitmapStorage := ⟨0x1A0000, 0x1000⟩
  memoryMapStorage := ⟨0x190000, 0x1000⟩
  pmmPageCount := 1024
  pmmBitmapBytes := 128
  kernelStackGuard := ⟨0x180000, 0x1000⟩

def sampleAcpi : AcpiInfo := ⟨0x300000, 0x301000⟩

theorem built_eq {r : Building × Option KernelPaging} (h : r.2 = some info) :
    r = (r.1, some info) :=
  Prod.ext rfl h

theorem kernel_map_identity_sample :
    ∃ info, (pagingInit sampleBoot sampleAcpi true ⟨sampleMachine, 0⟩).2 = some info ∧
      translate (pagingInit sampleBoot sampleAcpi true ⟨sampleMachine, 0⟩).1.phys.mem info.rootTable
        0x180123 = none := by
  obtain ⟨info, hinfo⟩ : ∃ info,
      (pagingInit sampleBoot sampleAcpi true ⟨sampleMachine, 0⟩).2 = some info :=
    Option.isSome_iff_exists.mp (by decide +kernel)
  obtain ⟨hguard, hmap⟩ := kernel_map_identity sampleMachine_pmmOk (built_eq hinfo)
  refine ⟨info, hinfo, (hmap 0x180123 (by decide)).2.1 ?_⟩
  rw [hguard]
  decide

end ArgusOs.Memory
