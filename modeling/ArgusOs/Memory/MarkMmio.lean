/-
  Marking device memory: `paging_mark_mmio`.

  The loop sets the cache bits of one 2 MiB region after the other: of the region's large page,
  or of every page of the region that was split. On the tree of tables this gains the bits at
  the present leaves of a run of regions (`KernelTree.gain`, `markRegions_spec`).

  The check in front of the loop compares `physical + size` with the end of the map after two
  tests for wrap-around, and the second of them lets one case through: a range that ends at
  2^64 exactly, for which the sum is zero. The loop then marks everything from `physical` on and
  fails at the end of the map. `mark_mmio_exact_iff` says that in all other cases the function
  marks exactly the regions that meet the range, or changes nothing.
-/
import ArgusOs.Memory.KernelMap

namespace ArgusOs.Memory

open Lib Function

variable {mem mem' : Mem} {m table : UInt64} {a b c hi index lo r : Nat} {info : KernelPaging}
  {path : List Nat}

/-! ## The source -/

def mmioBits : UInt64 := pagePcd ||| pagePwt

def markEntry (mem : Mem) (table : UInt64) (index : Nat) : Mem :=
  setEntry mem table index (entryAt mem table index ||| mmioBits)

/-- The pages of a region that was split. -/
def markTable (mem : Mem) (pt : UInt64) : Mem :=
  (List.range 512).foldl (fun mem index =>
    if entryAt mem pt index &&& pagePresent = 0 then mem else markEntry mem pt index) mem

/-- One turn of the loop, which may give up. -/
def markRegion (mem : Mem) (root address : UInt64) : Option Mem :=
  let rootEntry := entryAt mem root (tableIndex address 39)
  if rootEntry &&& pagePresent = 0 then none
  else
    let pdpt := rootEntry &&& pageAddressMask
    let pdptEntry := entryAt mem pdpt (tableIndex address 30)
    if pdptEntry &&& pagePresent = 0 then none
    else
      let pd := pdptEntry &&& pageAddressMask
      let entry := entryAt mem pd (tableIndex address 21)
      if entry &&& pagePresent = 0 then none
      else if entry &&& pageLarge ≠ 0 then some (markEntry mem pd (tableIndex address 21))
      else some (markTable mem (entry &&& pageAddressMask))

/-- The loop, for at most so many turns. -/
def markRegions (root last : UInt64) : Nat → UInt64 → Mem → Mem × Bool
  | 0, _, mem => (mem, false)
  | turns + 1, address, mem =>
    match markRegion mem root address with
    | none => (mem, false)
    | some mem =>
      if address = last then (mem, true)
      else markRegions root last turns (address + largePageSize) mem

/-- There are 2^43 regions in the address space, so the loop makes no more turns. -/
def pagingMarkMmio (info : KernelPaging) (mem : Mem) (physical size : UInt64) : Mem × Bool :=
  if info.rootTable = 0 ∨ size = 0 ∨ physical ≥ info.mappedBytes ∨
      size - 1 > 0xFFFFFFFFFFFFFFFF - physical ∨ physical + size > info.mappedBytes then
    (mem, false)
  else markRegions info.rootTable (regionBase (physical + size - 1)) (2 ^ 43)
    (regionBase physical) mem

/-! ## Gaining the bits -/

/-- A present entry gains the bits. -/
def gain (entry : UInt64) : UInt64 :=
  if entry &&& pagePresent = 0 then entry else entry ||| mmioBits

/-- The region that the leaf at this place belongs to. -/
def regionOf : List Nat → Nat → Nat
  | [a, b], c => (a * 512 + b) * 512 + c
  | a :: b :: c :: _, _ => (a * 512 + b) * 512 + c
  | _, _ => 0

/-- A place of the tree where a leaf can stand. -/
def LeafSpot (path : List Nat) (index : Nat) : Prop :=
  (path.length = 2 ∨ path.length = 3) ∧ (∀ i ∈ path, i < 512) ∧ index < 512

/-- The same, for the regions from `lo` to `hi`. -/
def LeafPlace (lo hi : Nat) (path : List Nat) (index : Nat) : Prop :=
  LeafSpot path index ∧ lo ≤ regionOf path index ∧ regionOf path index < hi

instance (path : List Nat) (index : Nat) : Decidable (LeafSpot path index) :=
  inferInstanceAs (Decidable (_ ∧ _ ∧ _))

instance (lo hi : Nat) (path : List Nat) (index : Nat) : Decidable (LeafPlace lo hi path index) :=
  inferInstanceAs (Decidable (_ ∧ _ ∧ _))

def gainLeaves (lo hi : Nat) (leaves : List Nat → Nat → UInt64) : List Nat → Nat → UInt64 :=
  fun path index =>
    if LeafPlace lo hi path index then gain (leaves path index) else leaves path index

theorem gain_zero : gain 0 = 0 := if_pos UInt64.zero_and

/-- The bits are none of the others that matter. -/
theorem or_mmioBits_and {entry : UInt64} (hm : mmioBits &&& m = 0) :
    (entry ||| mmioBits) &&& m = entry &&& m := by
  rw [or_and_distrib, hm, UInt64.or_zero]

theorem gain_and {entry : UInt64} (hm : mmioBits &&& m = 0) : gain entry &&& m = entry &&& m := by
  unfold gain
  split
  · rfl
  · exact or_mmioBits_and hm

theorem gainLeaves_and (lo hi : Nat) (leaves : List Nat → Nat → UInt64) (path : List Nat)
    (index : Nat) (hm : mmioBits &&& m = 0) :
    gainLeaves lo hi leaves path index &&& m = leaves path index &&& m := by
  unfold gainLeaves
  split
  · exact gain_and hm
  · rfl

theorem gainLeaves_empty (lo : Nat) (leaves : List Nat → Nat → UInt64) :
    gainLeaves lo lo leaves = leaves := by
  funext path index
  exact if_neg fun hc => absurd hc.2.2 (Nat.not_lt.mpr hc.2.1)

theorem gainLeaves_step (h : lo < hi) (leaves : List Nat → Nat → UInt64) :
    gainLeaves (lo + 1) hi (gainLeaves lo (lo + 1) leaves) = gainLeaves lo hi leaves := by
  funext path index
  unfold gainLeaves LeafPlace
  by_cases hspot : LeafSpot path index
  · simp only [hspot, true_and]
    by_cases heq : regionOf path index = lo
    · rw [if_neg (by omega), if_pos (by omega), if_pos (by omega)]
    · by_cases hin : lo + 1 ≤ regionOf path index ∧ regionOf path index < hi
      · rw [if_pos hin, if_neg (by omega), if_pos (by omega)]
      · rw [if_neg hin, if_neg (by omega), if_neg (by omega)]
  · simp only [hspot, false_and, if_false]

/-! ## One region -/

theorem markTable_entries (mem : Mem) {pt : UInt64} (hpt : pt.toNat % 4096 = 0) :
    SameOutside [frameOf pt] mem (markTable mem pt) ∧
      ∀ i, i < 512 → entryAt (markTable mem pt) pt i = gain (entryAt mem pt i) := by
  -- after `n` entries
  have hloop : ∀ n, n ≤ 512 →
      let marked := (List.range n).foldl (fun mem index =>
        if entryAt mem pt index &&& pagePresent = 0 then mem else markEntry mem pt index) mem
      SameOutside [frameOf pt] mem marked ∧
        ∀ i, i < 512 → entryAt marked pt i = if i < n then gain (entryAt mem pt i)
          else entryAt mem pt i := by
    intro n hn
    induction n with
    | zero => exact ⟨SameOutside.refl _ _, fun i _ => (if_neg (Nat.not_lt_zero i)).symm⟩
    | succ n ih =>
      obtain ⟨hsame, hentries⟩ := ih (by omega)
      rw [List.range_succ, List.foldl_append]
      dsimp only [List.foldl_cons, List.foldl_nil]
      generalize hmarked : (List.range n).foldl (fun mem index =>
        if entryAt mem pt index &&& pagePresent = 0 then mem else markEntry mem pt index) mem =
          marked
        at hsame hentries ⊢
      have hnth : entryAt marked pt n = entryAt mem pt n := by
        rw [hentries n (by omega), if_neg (Nat.lt_irrefl n)]
      rw [hnth]
      by_cases hp : entryAt mem pt n &&& pagePresent = 0
      · rw [if_pos hp]
        refine ⟨hsame, ?_⟩
        intro i hi
        rw [hentries i hi]
        by_cases hin : i = n
        · rw [hin, if_neg (Nat.lt_irrefl n), if_pos (Nat.lt_succ_self n), gain, if_pos hp]
        · exact if_congr (by omega) rfl rfl
      · rw [if_neg hp]
        unfold markEntry
        refine ⟨hsame.trans (setEntry_sameOutside _ hpt (by omega) _) (List.Subset.refl _), ?_⟩
        intro i hi
        by_cases hin : i = n
        · rw [hin, entryAt_setEntry, if_pos (Nat.lt_succ_self n), hnth, gain, if_neg hp]
        · rw [entryAt_setEntry_of_ne _ _ hin, hentries i hi]
          exact if_congr (by omega) rfl rfl
  obtain ⟨hsame, hentries⟩ := hloop 512 (Nat.le_refl 512)
  exact ⟨hsame, fun i hi => (hentries i hi).trans (if_pos hi)⟩

section Tree

variable {frames : List Nat} {root : UInt64} {tables : List Nat → Option UInt64}
  {leaves : List Nat → Nat → UInt64}

/-- The tree when the leaves of some regions have gained the bits. -/
theorem KernelTree.gain (h : KernelTree mem frames root tables leaves) (lo hi : Nat)
    (hentry : ∀ path table index, tables path = some table → index < 512 →
      entryAt mem' table index =
        if LeafPlace lo hi path index ∧ tables (path ++ [index]) = none
        then Memory.gain (entryAt mem table index) else entryAt mem table index) :
    KernelTree mem' frames root tables (gainLeaves lo hi leaves) := by
  refine { h with bare := ?_, leaf := ?_, entry := ?_ }
  · intro path index hnone
    unfold gainLeaves
    rw [h.bare path index hnone, gain_zero, ite_self]
  · intro path index
    obtain ⟨hup, hlarge⟩ := h.leaf path index
    refine ⟨?_, ?_⟩
    · intro hlen
      unfold gainLeaves
      rw [hup hlen, gain_zero, ite_self]
    · intro hlen
      rw [gainLeaves_and _ _ _ _ _ (by decide), gainLeaves_and _ _ _ _ _ (by decide)]
      exact hlarge hlen
  · intro path table index ht hi
    rw [hentry path table index ht hi, h.entry path table index ht hi]
    unfold treeEntry gainLeaves
    cases tables (path ++ [index]) with
    | some child => rw [if_neg (fun hc => Option.some_ne_none _ hc.2)]
    | none => exact if_congr (and_iff_left rfl) rfl rfl

end Tree

/-- The map of the first `n` regions: each has a large page or a table of pages, and there is
    nothing else. -/
structure MapShape (mem : Mem) (frames : List Nat) (root : UInt64)
    (tables : List Nat → Option UInt64) (leaves : List Nat → Nat → UInt64) (n : Nat) : Prop
    extends KernelTree mem frames root tables leaves where
  depth : ∀ path, tables path ≠ none → path.length ≤ 3
  regions : ∀ a b c, a < 512 → b < 512 → c < 512 →
    ((tables [a, b, c] ≠ none ∨ leaves [a, b] c &&& pagePresent ≠ 0) ↔ (a * 512 + b) * 512 + c < n)

theorem leafPlace_single (hb : b < 512) (hc : c < 512) (hr : (a * 512 + b) * 512 + c = r)
    (h : LeafPlace r (r + 1) path index) : (path = [a, b] ∧ index = c) ∨ path = [a, b, c] := by
  obtain ⟨⟨hlen, hpath, hindex⟩, hlo, hhi⟩ := h
  match path with
  | [a', b'] =>
    have ha' := hpath a' (by simp)
    have hb' := hpath b' (by simp)
    have hr' : regionOf [a', b'] index = (a' * 512 + b') * 512 + index := rfl
    rw [hr'] at hlo hhi
    left
    rw [List.cons.injEq, List.cons.injEq]
    exact ⟨⟨by omega, by omega, rfl⟩, by omega⟩
  | [a', b', c'] =>
    have ha' := hpath a' (by simp)
    have hb' := hpath b' (by simp)
    have hc' := hpath c' (by simp)
    have hr' : regionOf [a', b', c'] index = (a' * 512 + b') * 512 + c' := rfl
    rw [hr'] at hlo hhi
    right
    rw [List.cons.injEq, List.cons.injEq, List.cons.injEq]
    exact ⟨by omega, by omega, by omega, rfl⟩
  | [] => simp at hlen
  | [_] => simp at hlen
  | _ :: _ :: _ :: _ :: _ => simp at hlen

section Shape

variable {frames : List Nat} {root : UInt64} {tables : List Nat → Option UInt64}
  {leaves : List Nat → Nat → UInt64} {n : Nat} (h : MapShape mem frames root tables leaves n)

include h

theorem MapShape.gain (lo hi : Nat)
    (htree : KernelTree mem' frames root tables (gainLeaves lo hi leaves)) :
    MapShape mem' frames root tables (gainLeaves lo hi leaves) n where
  toKernelTree := htree
  depth := h.depth
  regions := by
    intro a b c ha hb hc
    rw [gainLeaves_and _ _ _ _ _ (by decide)]
    exact h.regions a b c ha hb hc

theorem MapShape.upper (ha : a < 512) (hb : b < 512) (hc : c < 512)
    (hr : (a * 512 + b) * 512 + c < n) :
    ∃ pdpt pd, tables [a] = some pdpt ∧ tables [a, b] = some pd := by
  have hdir : tables [a, b] ≠ none := by
    rcases (h.regions a b c ha hb hc).mpr hr with hsplit | hleaf
    · exact h.parent [a, b] c hsplit
    · intro hnone
      rw [h.bare _ _ hnone] at hleaf
      exact hleaf UInt64.zero_and
  obtain ⟨pd, hpd⟩ := Option.ne_none_iff_exists'.mp hdir
  obtain ⟨pdpt, hpdpt⟩ := Option.ne_none_iff_exists'.mp (h.parent [a] b hdir)
  exact ⟨pdpt, pd, hpdpt, hpd⟩

theorem MapShape.mark_large (ha : a < 512) (hb : b < 512) (hc : c < 512) {pd : UInt64}
    (hpd : tables [a, b] = some pd) (hnone : tables [a, b, c] = none)
    (hpresent : leaves [a, b] c &&& pagePresent ≠ 0) :
    KernelTree (markEntry mem pd c) frames root tables
      (gainLeaves ((a * 512 + b) * 512 + c) ((a * 512 + b) * 512 + c + 1) leaves) := by
  apply h.toKernelTree.gain
  intro path table index ht hi
  have hentry : entryAt mem pd c = leaves [a, b] c := h.leaf_entry hpd hc hnone
  unfold markEntry
  by_cases hplace : path = [a, b] ∧ index = c
  · obtain ⟨rfl, rfl⟩ := hplace
    rw [hpd, Option.some.injEq] at ht
    subst ht
    have hin : LeafPlace ((a * 512 + b) * 512 + index) ((a * 512 + b) * 512 + index + 1)
        [a, b] index :=
      ⟨⟨Or.inl rfl, by simp [ha, hb], hc⟩, Nat.le_refl _, Nat.lt_succ_self _⟩
    rw [entryAt_setEntry, if_pos ⟨hin, hnone⟩, Memory.gain, hentry, if_neg hpresent]
  · rw [h.nodes.entryAt_set hpd ht hc hi (by
      by_contra hcon
      push Not at hcon
      exact hplace hcon) _ rfl, if_neg]
    rintro ⟨hin, -⟩
    rcases leafPlace_single hb hc rfl hin with hsame | rfl
    · exact hplace hsame
    · rw [hnone] at ht
      cases ht

theorem MapShape.mark_split (ha : a < 512) (hb : b < 512) (hc : c < 512) {pt : UInt64}
    (hpt : tables [a, b, c] = some pt) :
    KernelTree (markTable mem pt) frames root tables
      (gainLeaves ((a * 512 + b) * 512 + c) ((a * 512 + b) * 512 + c + 1) leaves) := by
  obtain ⟨hsame, hentries⟩ := markTable_entries mem (h.page _ _ hpt).1.1
  apply h.toKernelTree.gain
  intro path table index ht hi
  by_cases hplace : path = [a, b, c]
  · subst hplace
    rw [hpt, Option.some.injEq] at ht
    subst ht
    have hin : LeafPlace ((a * 512 + b) * 512 + c) ((a * 512 + b) * 512 + c + 1) [a, b, c] index :=
      ⟨⟨Or.inr rfl, by simp [ha, hb, hc], hi⟩, Nat.le_refl _, Nat.lt_succ_self _⟩
    have hlast : tables ([a, b, c] ++ [index]) = none := by
      by_contra hcon
      exact absurd (h.depth _ hcon) (by simp)
    rw [hentries index hi, if_pos ⟨hin, hlast⟩]
  · have hkeep : entryAt (markTable mem pt) table index = entryAt mem table index := by
      apply entryAt_congr (h.page path table ht).1.1 hi
      intro x hx
      apply hsame
      rw [hx, List.mem_singleton]
      exact h.nodes.frame_ne ht hpt hplace
    rw [hkeep, if_neg]
    rintro ⟨hin, hnone⟩
    rcases leafPlace_single hb hc rfl hin with ⟨rfl, rfl⟩ | hsame'
    · rw [show [a, b] ++ [index] = [a, b, index] from rfl, hpt] at hnone
      cases hnone
    · exact hplace hsame'

/-- A turn on a region of the map marks it; beyond the map it gives up. -/
theorem markRegion_spec (hr : r < 2 ^ 27) :
    (r < n → ∃ mem', markRegion mem root (regionAddress r) = some mem' ∧
      MapShape mem' frames root tables (gainLeaves r (r + 1) leaves) n) ∧
    (n ≤ r → markRegion mem root (regionAddress r) = none) := by
  have haddress := regionAddress_toNat hr
  obtain ⟨h39, h30, h21, -⟩ := tableIndex_region (regionAddress r) (by omega)
  have hquot : (regionAddress r).toNat / 2 ^ 21 = r := by omega
  rw [hquot] at h39 h30 h21
  have hlt := tableIndex_lt (regionAddress r)
  have ha := hlt 39
  have hb := hlt 30
  have hc := hlt 21
  have hregion : (tableIndex (regionAddress r) 39 * 512 + tableIndex (regionAddress r) 30) * 512 +
      tableIndex (regionAddress r) 21 = r := by
    rw [h39, h30, h21]
    omega
  unfold markRegion
  dsimp only
  generalize tableIndex (regionAddress r) 39 = a at ha hregion ⊢
  generalize tableIndex (regionAddress r) 30 = b at hb hregion ⊢
  generalize tableIndex (regionAddress r) 21 = c at hc hregion ⊢
  have hregions := h.regions a b c ha hb hc
  rw [hregion] at hregions
  constructor
  · intro hrn
    obtain ⟨pdpt, pd, hpdpt, hpd⟩ := h.upper ha hb hc (hregion ▸ hrn)
    have hpage := (h.page _ _ hpdpt).1
    have hpage' := (h.page _ _ hpd).1
    rw [h.link h.root ha hpdpt, if_neg (kernelLink_present hpage), kernelLink_address hpage,
      h.link hpdpt hb hpd, if_neg (kernelLink_present hpage'), kernelLink_address hpage']
    cases hpt : tables [a, b, c] with
    | some pt =>
      have hpage'' := (h.page _ _ hpt).1
      rw [h.link hpd hc hpt, if_neg (kernelLink_present hpage''),
        if_neg (not_not.mpr (kernelLink_large hpage'')), kernelLink_address hpage'']
      refine ⟨_, rfl, h.gain _ _ ?_⟩
      rw [← hregion]
      exact h.mark_split ha hb hc hpt
    | none =>
      have hpresent := (hregions.mpr hrn).resolve_left (not_not.mpr hpt)
      have hlarge := (h.leaf [a, b] c).2 rfl hpresent
      rw [h.leaf_entry hpd hc hpt, if_neg hpresent, if_pos hlarge]
      refine ⟨_, rfl, h.gain _ _ ?_⟩
      rw [← hregion]
      exact h.mark_large ha hb hc hpd hpt hpresent
  · intro hrn
    have habsent := mt hregions.mp (Nat.not_lt.mpr hrn)
    rw [not_or, not_not, not_not] at habsent
    cases hpdpt : tables [a] with
    | none =>
      rw [h.leaf_entry h.root ha hpdpt, (h.leaf [] a).1 (by decide), if_pos UInt64.zero_and]
    | some pdpt =>
    have hpage := (h.page _ _ hpdpt).1
    rw [h.link h.root ha hpdpt, if_neg (kernelLink_present hpage), kernelLink_address hpage]
    cases hpd : tables [a, b] with
    | none =>
      rw [h.leaf_entry hpdpt hb hpd, (h.leaf [a] b).1 (by simp), if_pos UInt64.zero_and]
    | some pd =>
    have hpage' := (h.page _ _ hpd).1
    rw [h.link hpdpt hb hpd, if_neg (kernelLink_present hpage'), kernelLink_address hpage',
      h.leaf_entry hpd hc habsent.1, if_pos habsent.2]

end Shape

/-! ## The loop -/

theorem regionAddress_next (r : Nat) : regionAddress r + largePageSize = regionAddress (r + 1) := by
  apply UInt64.toNat_inj.mp
  unfold regionAddress largePageSize
  rw [UInt64.toNat_add, UInt64.toNat_mul, UInt64.toNat_mul, UInt64.toNat_ofNat',
    UInt64.toNat_ofNat', show (0x200000 : UInt64).toNat = 2 ^ 21 from rfl]
  omega

theorem regionBase_toNat (address : UInt64) :
    (regionBase address).toNat = address.toNat / 2 ^ 21 * 2 ^ 21 := by
  have := address.toNat_lt
  unfold regionBase
  rw [toNat_and_field _ _ 21 43 (by decide)]
  omega

/-- From region `r` on the loop marks the regions up to the last one or up to the end of the map,
    and it succeeds in the first case. -/
theorem markRegions_spec {frames : List Nat} {root last : UInt64}
    {tables : List Nat → Option UInt64} {n l : Nat} (hn : n < 2 ^ 27)
    (hlast : last.toNat = l * 2 ^ 21) (d turns r : Nat) {leaves : List Nat → Nat → UInt64}
    (h : MapShape mem frames root tables leaves n) (hrl : r ≤ l) (hd : min (l + 1) n = r + d)
    (hturns : d < turns) :
    ∃ mem', markRegions root last turns (regionAddress r) mem = (mem', decide (l < n)) ∧
      MapShape mem' frames root tables (gainLeaves r (min (l + 1) n) leaves) n := by
  -- `d` regions are left to be marked
  induction d generalizing turns r mem leaves with
  | zero =>
    obtain ⟨turns, rfl⟩ : ∃ t, turns = t + 1 := ⟨turns - 1, by omega⟩
    have hrn : n = r := by omega
    rw [markRegions, (markRegion_spec h (by omega)).2 (by omega), hd, Nat.add_zero,
      gainLeaves_empty, decide_eq_false (show ¬ l < n by omega)]
    exact ⟨mem, rfl, h⟩
  | succ d ih =>
    obtain ⟨turns, rfl⟩ : ∃ t, turns = t + 1 := ⟨turns - 1, by omega⟩
    obtain ⟨mem₁, hmark, h₁⟩ := (markRegion_spec h (show r < 2 ^ 27 by omega)).1 (by omega)
    have haddress := regionAddress_toNat (show r < 2 ^ 27 by omega)
    rw [markRegions, hmark]
    dsimp only
    by_cases hend : r = l
    · have heq : regionAddress r = last := UInt64.toNat_inj.mp (by rw [haddress, hlast, hend])
      rw [if_pos heq, decide_eq_true (show l < n by omega), show min (l + 1) n = r + 1 by omega]
      exact ⟨mem₁, rfl, h₁⟩
    · have hne : regionAddress r ≠ last := by
        intro hc
        rw [← hc, haddress] at hlast
        omega
      obtain ⟨mem', hrun, h'⟩ := ih turns (r + 1) h₁ (by omega) (by omega) (by omega)
      rw [if_neg hne, regionAddress_next, hrun]
      rw [gainLeaves_step (by omega)] at h'
      exact ⟨mem', rfl, h'⟩

/-- The check in front of the loop lets a range through that lies in the map, or that starts in
    the map and ends at 2^64. -/
theorem mark_check (mapped physical size : UInt64) :
    (size = 0 ∨ physical ≥ mapped ∨ size - 1 > 0xFFFFFFFFFFFFFFFF - physical ∨
      physical + size > mapped) ↔
    ¬ (0 < size.toNat ∧ (physical.toNat + size.toNat ≤ mapped.toNat ∨
      physical < mapped ∧ physical.toNat + size.toNat = 2 ^ 64)) := by
  have hm := mapped.toNat_lt
  have hp := physical.toNat_lt
  have hs := size.toNat_lt
  have hsub := toNat_room physical
  have hadd : (physical + size).toNat = (physical.toNat + size.toNat) % 2 ^ 64 :=
    UInt64.toNat_add ..
  by_cases hzero : size = 0
  · rw [hzero]
    simp
  have hpos : 0 < size.toNat := Nat.pos_of_ne_zero fun hc => hzero (UInt64.toNat_inj.mp hc)
  have hsize : (size - 1).toNat = size.toNat - 1 :=
    toNat_sub64 hpos
  simp only [hzero, false_or, hpos, true_and, ge_iff_le, gt_iff_lt, UInt64.le_iff_toNat_le,
    UInt64.lt_iff_toNat_lt, hsub, hsize, hadd]
  omega

/-- What a call does: mark the regions of the range, mark everything from `physical` on and fail,
    or fail at once. -/
theorem pagingMarkMmio_spec {frames : List Nat} {tables : List Nat → Option UInt64} {n : Nat}
    {leaves : List Nat → Nat → UInt64} (h : MapShape mem frames info.rootTable tables leaves n)
    (hroot : info.rootTable ≠ 0) (hmapped : info.mappedBytes.toNat = n * 2 ^ 21) (hn : n < 2 ^ 27)
    (physical size : UInt64) :
    (0 < size.toNat ∧ physical.toNat + size.toNat ≤ info.mappedBytes.toNat ∧
      ∃ mem', pagingMarkMmio info mem physical size = (mem', true) ∧
        MapShape mem' frames info.rootTable tables (gainLeaves (physical.toNat / 2 ^ 21)
          ((physical.toNat + size.toNat - 1) / 2 ^ 21 + 1) leaves) n) ∨
    (physical < info.mappedBytes ∧ physical.toNat + size.toNat = 2 ^ 64 ∧
      ∃ mem', pagingMarkMmio info mem physical size = (mem', false) ∧
        MapShape mem' frames info.rootTable tables (gainLeaves (physical.toNat / 2 ^ 21) n
          leaves) n) ∨
    (¬ (physical < info.mappedBytes ∧ physical.toNat + size.toNat = 2 ^ 64) ∧
      pagingMarkMmio info mem physical size = (mem, false)) := by
  have hs := size.toNat_lt
  have hp := physical.toNat_lt
  have hcheck := mark_check info.mappedBytes physical size
  unfold pagingMarkMmio
  by_cases hbad : size = 0 ∨ physical ≥ info.mappedBytes ∨
      size - 1 > 0xFFFFFFFFFFFFFFFF - physical ∨ physical + size > info.mappedBytes
  · rw [if_pos (Or.inr hbad)]
    refine Or.inr (Or.inr ⟨?_, rfl⟩)
    intro hwrap
    exact hcheck.mp hbad ⟨by omega, Or.inr hwrap⟩
  · rw [if_neg (not_or.mpr ⟨hroot, hbad⟩)]
    obtain ⟨hpos, hrange⟩ := not_not.mp (mt hcheck.mpr hbad)
    have hlast : (physical + size - 1).toNat = physical.toNat + size.toNat - 1 := by
      rw [UInt64.toNat_sub, UInt64.toNat_add, show (1 : UInt64).toNat = 1 from rfl]
      rcases hrange with hin | ⟨-, hwrap⟩
      · have := info.mappedBytes.toNat_lt
        omega
      · omega
    have hin : physical.toNat < n * 2 ^ 21 := by
      rcases hrange with hin | ⟨hlt, -⟩
      · omega
      · rw [← hmapped]
        exact UInt64.lt_iff_toNat_lt.mp hlt
    have hbase := regionBase_toNat (physical + size - 1)
    rw [hlast] at hbase
    rw [regionBase_eq (show physical.toNat < 2 ^ 48 by omega)]
    obtain ⟨mem', hrun, h'⟩ := markRegions_spec hn hbase
      (min ((physical.toNat + size.toNat - 1) / 2 ^ 21 + 1) n - physical.toNat / 2 ^ 21) (2 ^ 43)
      (physical.toNat / 2 ^ 21) h (by omega) (by omega) (by omega)
    rcases hrange with hfits | hwrap
    · refine Or.inl ⟨hpos, hfits, mem', ?_, ?_⟩
      · rw [hrun, decide_eq_true (by omega)]
      · rw [Nat.min_eq_left (by omega)] at h'
        exact h'
    · refine Or.inr (Or.inl ⟨hwrap.1, hwrap.2, mem', ?_, ?_⟩)
      · rw [hrun, decide_eq_false (by omega)]
      · rw [Nat.min_eq_right (by omega)] at h'
        exact h'

/-! ## Entries and translations -/

/-- The table at a path of indices, as the processor finds it. -/
def tableAt (mem : Mem) : UInt64 → List Nat → Option UInt64
  | table, [] => some table
  | table, index :: rest =>
    let entry := entryAt mem table index
    if index ≥ 512 ∨ entry &&& pagePresent = 0 ∨ entry &&& pageLarge ≠ 0 then none
    else tableAt mem (entry &&& pageAddressMask) rest

/-- The entry is a leaf: a large page of the third level, or a page of the fourth. -/
def IsLeaf (path : List Nat) (entry : UInt64) : Prop :=
  entry &&& pagePresent ≠ 0 ∧ (path.length = 2 ∧ entry &&& pageLarge ≠ 0 ∨ path.length = 3)

/-- Exactly the leaves of the regions from `lo` to `hi` have gained the cache bits, and the
    translation of an address is what it was, but for these bits. -/
structure Gained (root : UInt64) (lo hi : Nat) (mem mem' : Mem) : Prop where
  entries : ∀ path table index, path.length ≤ 3 → tableAt mem root path = some table → index < 512 →
    (IsLeaf path (entryAt mem table index) ∧ lo ≤ regionOf path index ∧ regionOf path index < hi →
      entryAt mem' table index = entryAt mem table index ||| mmioBits) ∧
    (¬ (IsLeaf path (entryAt mem table index) ∧ lo ≤ regionOf path index ∧
      regionOf path index < hi) →
      entryAt mem' table index = entryAt mem table index)
  translations : ∀ address : UInt64, address.toNat < 2 ^ 48 →
    translate mem' root address = (translate mem root address).map fun mapping =>
      if lo ≤ address.toNat / 2 ^ 21 ∧ address.toNat / 2 ^ 21 < hi then
        { mapping with leaf := mapping.leaf ||| mmioBits }
      else mapping

section Lookup

variable {frames : List Nat} {root : UInt64} {tables : List Nat → Option UInt64}
  {leaves : List Nat → Nat → UInt64} {n : Nat}

/-- What the processor finds is in the tree. -/
theorem KernelTree.tableAt (h : KernelTree mem frames root tables leaves) (rest : List Nat)
    {found : UInt64} (ht : tables path = some table) (hlen : path.length + rest.length ≤ 3)
    (hfound : Memory.tableAt mem table rest = some found) :
    tables (path ++ rest) = some found ∧ ∀ i ∈ rest, i < 512 := by
  induction rest generalizing path table with
  | nil =>
    rw [Memory.tableAt, Option.some.injEq] at hfound
    rw [List.append_nil, ht, hfound]
    exact ⟨rfl, fun i hi => absurd hi List.not_mem_nil⟩
  | cons index rest ih =>
    rw [List.length_cons] at hlen
    unfold Memory.tableAt at hfound
    dsimp only at hfound
    split at hfound
    · cases hfound
    · next hgo =>
      rw [not_or, not_or, Nat.not_le, not_not] at hgo
      obtain ⟨hindex, hpresent, hlarge⟩ := hgo
      cases hchild : tables (path ++ [index]) with
      | some child =>
        rw [h.link ht hindex hchild, kernelLink_address (h.page _ _ hchild).1] at hfound
        obtain ⟨hbelow, hrest⟩ :=
          ih hchild (by rw [List.length_append, List.length_singleton]; omega) hfound
        rw [List.append_assoc, List.singleton_append] at hbelow
        refine ⟨hbelow, ?_⟩
        intro i hi
        rcases List.mem_cons.mp hi with rfl | hi
        · exact hindex
        · exact hrest i hi
      | none =>
        -- a leaf: absent in the upper levels, and large where it may be present
        rw [h.leaf_entry ht hindex hchild] at hpresent hlarge
        obtain ⟨hup, hthird⟩ := h.leaf path index
        by_cases hdepth : path.length < 2
        · rw [hup hdepth] at hpresent
          exact absurd UInt64.zero_and hpresent
        · exact absurd hlarge (hthird (by omega) hpresent)

/-- The leaves are the present entries without a table below. -/
theorem MapShape.isLeaf (h : MapShape mem frames root tables leaves n)
    (ht : tables path = some table) (hi : index < 512) (hlen : path.length ≤ 3) :
    IsLeaf path (entryAt mem table index) ↔
      tables (path ++ [index]) = none ∧ leaves path index &&& pagePresent ≠ 0 := by
  unfold IsLeaf
  cases hchild : tables (path ++ [index]) with
  | some child =>
    have hpage := (h.page _ _ hchild).1
    have hdepth :=
      h.depth _ (show tables (path ++ [index]) ≠ none by rw [hchild]; exact Option.some_ne_none _)
    rw [List.length_append, List.length_singleton] at hdepth
    rw [h.link ht hi hchild]
    refine ⟨?_, fun hc => absurd hc.1 (Option.some_ne_none _)⟩
    rintro ⟨-, ⟨-, hlarge⟩ | hthree⟩
    · exact absurd (kernelLink_large hpage) hlarge
    · omega
  | none =>
    obtain ⟨hup, hthird⟩ := h.leaf path index
    rw [h.leaf_entry ht hi hchild]
    refine ⟨fun hc => ⟨rfl, hc.1⟩, ?_⟩
    rintro ⟨-, hpresent⟩
    refine ⟨hpresent, ?_⟩
    by_cases hdepth : path.length < 2
    · rw [hup hdepth] at hpresent
      exact absurd UInt64.zero_and hpresent
    · by_cases htwo : path.length = 2
      · exact Or.inl ⟨htwo, hthird htwo hpresent⟩
      · exact Or.inr (by omega)

/-- The leaves belong to regions of the map. -/
theorem MapShape.leaf_region (h : MapShape mem frames root tables leaves n) (hlen : path.length ≤ 3)
    (htable : Memory.tableAt mem root path = some table) (hi : index < 512)
    (hleaf : IsLeaf path (entryAt mem table index)) : regionOf path index < n := by
  obtain ⟨ht, hpath⟩ := h.tableAt path h.root (by rw [List.length_nil]; omega) htable
  rw [List.nil_append] at ht
  have hdepth := hleaf.2
  obtain ⟨-, hpresent⟩ := (h.isLeaf ht hi hlen).mp hleaf
  match path with
  | [a, b] =>
    exact (h.regions a b index (hpath a (by simp)) (hpath b (by simp)) hi).mp (Or.inr hpresent)
  | [a, b, c] =>
    exact (h.regions a b c (hpath a (by simp)) (hpath b (by simp)) (hpath c (by simp))).mp
      (Or.inl (by rw [ht]; exact Option.some_ne_none _))
  | [] => simp at hdepth
  | [_] => simp at hdepth
  | _ :: _ :: _ :: _ :: _ =>
    simp only [List.length_cons] at hlen
    omega

/-- The mapping of a leaf that may have gained the bits. -/
theorem leafMapping_gain (writable user : Bool) {leaf mask : UInt64} (address offset : UInt64)
    (hm : mmioBits &&& mask = 0) :
    leafMapping writable user (leaf ||| mmioBits) mask address offset =
      { leafMapping writable user leaf mask address offset with
        leaf := (leafMapping writable user leaf mask address offset).leaf ||| mmioBits } := by
  unfold leafMapping
  rw [or_mmioBits_and hm, or_mmioBits_and (show mmioBits &&& pageWritable = 0 by decide),
    or_mmioBits_and (show mmioBits &&& pageUser = 0 by decide)]

/-- What a walk gives that ends at a leaf, before and after. -/
theorem leaf_translation {address mask offset : UInt64}
    (hplace : LeafPlace lo hi path index ↔ lo ≤ r ∧ r < hi) (hm : mmioBits &&& mask = 0) :
    (if gainLeaves lo hi leaves path index &&& pagePresent = 0 then none
      else some (leafMapping true false (gainLeaves lo hi leaves path index) mask address offset)) =
    Option.map (fun mapping : Mapping =>
        if lo ≤ r ∧ r < hi then { mapping with leaf := mapping.leaf ||| mmioBits } else mapping)
      (if leaves path index &&& pagePresent = 0 then none
        else some (leafMapping true false (leaves path index) mask address offset)) := by
  rw [gainLeaves_and _ _ _ _ _ (by decide)]
  by_cases hpresent : leaves path index &&& pagePresent = 0
  · rw [if_pos hpresent, if_pos hpresent]
    rfl
  · rw [if_neg hpresent, if_neg hpresent]
    unfold gainLeaves
    by_cases hin : lo ≤ r ∧ r < hi
    · rw [if_pos (hplace.mpr hin), Memory.gain, if_neg hpresent, leafMapping_gain _ _ _ _ hm,
        Option.map_some, if_pos hin]
    · rw [if_neg (mt hplace.mp hin), Option.map_some, if_neg hin]

theorem MapShape.gained (h : MapShape mem frames root tables leaves n)
    (h' : MapShape mem' frames root tables (gainLeaves lo hi leaves) n) :
    Gained root lo hi mem mem' where
  entries := by
    intro path table index hlen htable hindex
    obtain ⟨ht, hpath⟩ := h.tableAt path h.root (by rw [List.length_nil]; omega) htable
    rw [List.nil_append] at ht
    rw [h.isLeaf ht hindex hlen, h'.entry path table index ht hindex,
      h.entry path table index ht hindex]
    unfold treeEntry gainLeaves
    cases hchild : tables (path ++ [index]) with
    | some child => exact ⟨fun hc => absurd hc.1.1 (Option.some_ne_none _), fun _ => rfl⟩
    | none =>
      dsimp only
      have hspot : leaves path index &&& pagePresent ≠ 0 → LeafSpot path index := by
        intro hpresent
        refine ⟨?_, hpath, hindex⟩
        by_contra hc
        rw [(h.leaf path index).1 (by omega)] at hpresent
        exact hpresent UInt64.zero_and
      constructor
      · rintro ⟨⟨-, hpresent⟩, hregion⟩
        rw [if_pos ⟨hspot hpresent, hregion⟩, Memory.gain, if_neg hpresent]
      · intro hnot
        by_cases hplace : LeafPlace lo hi path index
        · have habsent : leaves path index &&& pagePresent = 0 := by
            by_contra hpresent
            exact hnot ⟨⟨rfl, hpresent⟩, hplace.2⟩
          rw [if_pos hplace, Memory.gain, if_pos habsent]
        · rw [if_neg hplace]
  translations := by
    intro address haddress
    obtain ⟨h39, h30, h21, -⟩ := tableIndex_region _ haddress
    have hlt := tableIndex_lt address
    have hregion : (tableIndex address 39 * 512 + tableIndex address 30) * 512 +
        tableIndex address 21 = address.toNat / 2 ^ 21 := by
      rw [h39, h30, h21]
      omega
    cases hpt : tables (regionPath address) with
    | none =>
      rw [h'.translate_large address hpt, h.translate_large address hpt]
      refine leaf_translation ?_ (by decide)
      have hspot : LeafSpot (directoryPath address) (tableIndex address 21) :=
        ⟨Or.inl rfl, by simp [directoryPath, hlt], hlt 21⟩
      unfold LeafPlace
      rw [← hregion]
      exact and_iff_right hspot
    | some pt =>
      have hlast : tables (regionPath address ++
          [tableIndex address 12]) = none := by
        by_contra hc
        exact absurd (h.depth _ hc) (by simp [directoryPath])
      rw [h'.translate_small address hpt hlast, h.translate_small address hpt hlast]
      refine leaf_translation ?_ (by decide)
      have hspot : LeafSpot (regionPath address) (tableIndex address 12) :=
        ⟨Or.inr rfl, by simp [regionPath, directoryPath, hlt], hlt 12⟩
      unfold LeafPlace
      rw [← hregion]
      exact and_iff_right hspot

end Lookup

/-! ## The tables of `paging_init` -/

theorem regionEntry_present (boot : PagingBoot) (acpi : AcpiInfo) (nx : Bool) (hr : r < 2 ^ 27) :
    regionEntry boot acpi nx r &&& pagePresent ≠ 0 := by
  have hbits :
      IsLeafBits (regionNx boot nx (regionAddress r)) (rangeIsMmio boot acpi (regionAddress r))
    (regionBits boot acpi nx (regionAddress r) ||| pageLarge) := Or.inr rfl
  rw [regionEntry_eq, (regionAddress_page hr).flag _ (by decide)]
  exact hbits.flags.1

/-- The kernel's tables, as long as only `paging_mark_mmio` changes them. -/
def Mapped (info : KernelPaging) (mem : Mem) : Prop :=
  info.rootTable ≠ 0 ∧ ∃ frames tables leaves n, info.mappedBytes.toNat = n * 2 ^ 21 ∧ n < 2 ^ 27 ∧
    MapShape mem frames info.rootTable tables leaves n

theorem pagingInit_mapped {boot : PagingBoot} {acpi : AcpiInfo} {nx : Bool} {s s' : Building}
    (hok : PmmOk s.phys.pmm) (h : pagingInit boot acpi nx s = (s', some info)) :
    Mapped info s'.phys.mem := by
  obtain ⟨hroot, pt, tables, hstack, hend, -, hunsplit, hpresent, -, frames, -, htree⟩ :=
    pagingInit_tree hok h
  obtain ⟨hmultiple, hle, hhigh, -⟩ := mapEnd_spec hend
  obtain ⟨-, hguardLt⟩ := guard_bounds hstack hhigh
  generalize boot.kernelStackGuard.base = guard at hpresent htree hguardLt
  have hcount : (info.mappedBytes / largePageSize).toNat = info.mappedBytes.toNat / 2 ^ 21 :=
    UInt64.toNat_div ..
  refine ⟨hroot, frames, _, _, (info.mappedBytes / largePageSize).toNat, by omega, by omega,
    htree, ?_, ?_⟩
  · intro path hpath
    by_cases hp : path = regionPath guard
    · rw [hp]
      exact Nat.le_refl 3
    · rw [update_of_ne hp] at hpath
      exact Nat.le_succ_of_le (hunsplit path hpath)
  · intro a b c ha hb hc
    obtain ⟨h39, h30, h21, -⟩ := tableIndex_region _ hguardLt
    rw [regionLeaves_at boot acpi nx _ hguardLt] at hpresent
    by_cases hp : [a, b, c] = regionPath guard
    · have hregion : (a * 512 + b) * 512 + c = guard.toNat / 2 ^ 21 := by
        unfold regionPath directoryPath at hp
        rw [List.cons_append, List.cons_append, List.nil_append, List.cons.injEq, List.cons.injEq,
          List.cons.injEq] at hp
        omega
      have hin : guard.toNat / 2 ^ 21 < (info.mappedBytes / largePageSize).toNat := by
        by_contra hout
        rw [if_neg hout] at hpresent
        exact hpresent UInt64.zero_and
      rw [hp, update_self, hregion]
      exact ⟨fun _ => hin, fun _ => Or.inl (Option.some_ne_none _)⟩
    · have hnone : tables [a, b, c] = none := by
        by_contra hcon
        exact absurd (hunsplit _ hcon) (by simp)
      have hpath : [a, b] ≠ regionPath guard := by
        intro hcon
        have := congrArg List.length hcon
        simp [directoryPath] at this
      unfold setLeafAt
      rw [update_of_ne hp, hnone, if_neg (fun hcon => hpath hcon.1), update_of_ne hpath]
      unfold regionLeaves
      dsimp only
      by_cases hin : (a * 512 + b) * 512 + c < (info.mappedBytes / largePageSize).toNat
      · rw [if_pos ⟨ha, hb, hc, hin⟩]
        exact ⟨fun _ => hin, fun _ => Or.inr (regionEntry_present boot acpi nx (by omega))⟩
      · rw [if_neg (fun hcon => hin hcon.2.2.2), UInt64.zero_and]
        exact ⟨fun hcon => absurd rfl (hcon.resolve_left fun hne => hne rfl), fun hcon =>
          absurd hcon hin⟩

theorem Mapped.mark (h : Mapped info mem) (physical size : UInt64) :
    Mapped info (pagingMarkMmio info mem physical size).1 := by
  obtain ⟨hroot, frames, tables, leaves, n, hmapped, hn, hshape⟩ := h
  refine ⟨hroot, frames, tables, ?_⟩
  rcases pagingMarkMmio_spec hshape hroot hmapped hn physical size with
    ⟨-, -, mem', hrun, h'⟩ | ⟨-, -, mem', hrun, h'⟩ | ⟨-, hrun⟩
  · rw [hrun]
    exact ⟨_, n, hmapped, hn, h'⟩
  · rw [hrun]
    exact ⟨_, n, hmapped, hn, h'⟩
  · rw [hrun]
    exact ⟨leaves, n, hmapped, hn, hshape⟩

/-- Any number of calls of `paging_mark_mmio`, whatever they return. -/
abbrev Marked (info : KernelPaging) : Mem → Mem → Prop :=
  Relation.ReflTransGen fun mem mem' =>
    ∃ physical size, mem' = (pagingMarkMmio info mem physical size).1

theorem Mapped.marked (h : Mapped info mem) (hm : Marked info mem mem') : Mapped info mem' := by
  induction hm with
  | refl => exact h
  | tail _ hstep ih =>
    obtain ⟨physical, size, rfl⟩ := hstep
    exact ih.mark physical size

/-! ## Exactness -/

/-- What a call should do: on success the range lies in the map and exactly the leaves of the
    regions that meet it have gained the bits; on failure no entry has changed. -/
structure MarkExact (info : KernelPaging) (mem : Mem) (physical size : UInt64) (r : Mem × Bool) :
    Prop where
  accepted : r.2 = true → physical.toNat + size.toNat ≤ info.mappedBytes.toNat ∧
    Gained info.rootTable (physical.toNat / 2 ^ 21) ((physical.toNat + size.toNat - 1) /
      2 ^ 21 + 1) mem r.1
  refused : r.2 = false → ∀ path table index, path.length ≤ 3 →
    tableAt mem info.rootTable path = some table → index < 512 →
    entryAt r.1 table index = entryAt mem table index

/-- **Exactness of `paging_mark_mmio`.** On the tables of `paging_init`, after any earlier calls:
    a call is exact unless the range starts in the map and ends at 2^64, and even then if every
    leaf from `physical` on has the bits already. -/
theorem mark_mmio_exact_iff {boot : PagingBoot} {acpi : AcpiInfo} {nx : Bool} {s s' : Building}
    {info : KernelPaging} (hok : PmmOk s.phys.pmm) (h : pagingInit boot acpi nx s = (s', some info))
    {mem : Mem} (hmem : Marked info s'.phys.mem mem) (physical size : UInt64) :
    MarkExact info mem physical size (pagingMarkMmio info mem physical size) ↔
      ¬ (physical < info.mappedBytes ∧ physical.toNat + size.toNat = 2 ^ 64) ∨
      ∀ path table index, path.length ≤ 3 → tableAt mem info.rootTable path = some table →
        index < 512 → IsLeaf path (entryAt mem table index) →
        physical.toNat / 2 ^ 21 ≤ regionOf path index →
        entryAt mem table index ||| mmioBits = entryAt mem table index := by
  obtain ⟨hroot, frames, tables, leaves, n, hmapped, hn, hshape⟩ :=
    (pagingInit_mapped hok h).marked hmem
  rcases pagingMarkMmio_spec hshape hroot hmapped hn physical size with
    ⟨-, hfits, mem', hrun, h'⟩ | ⟨hlt, hwrap, mem', hrun, h'⟩ | ⟨hnot, hrun⟩
  · rw [hrun]
    have hexact : MarkExact info mem physical size (mem', true) :=
      ⟨fun _ => ⟨hfits, hshape.gained h'⟩, fun hc => Bool.noConfusion hc⟩
    refine ⟨fun _ => Or.inl ?_, fun _ => hexact⟩
    rintro ⟨-, hwrap⟩
    have := info.mappedBytes.toNat_lt
    omega
  · rw [hrun]
    have hgained := hshape.gained h'
    constructor
    · intro hexact
      right
      intro path table index hlen htable hindex hleaf hregion
      have hbelow : regionOf path index < n := hshape.leaf_region hlen htable hindex hleaf
      rw [← ((hgained.entries path table index hlen htable hindex).1 ⟨hleaf, hregion, hbelow⟩)]
      exact hexact.refused rfl path table index hlen htable hindex
    · rintro (hnot | hmarked)
      · exact absurd ⟨hlt, hwrap⟩ hnot
      · refine ⟨fun hc => Bool.noConfusion hc, fun _ => ?_⟩
        intro path table index hlen htable hindex
        obtain ⟨hin, hout⟩ := hgained.entries path table index hlen htable hindex
        by_cases hplace : IsLeaf path (entryAt mem table index) ∧
            physical.toNat / 2 ^ 21 ≤ regionOf path index ∧ regionOf path index < n
        · rw [hin hplace]
          exact hmarked path table index hlen htable hindex hplace.1 hplace.2.1
        · exact hout hplace
  · rw [hrun]
    exact ⟨fun _ => Or.inl hnot, fun _ => ⟨fun hc => Bool.noConfusion hc, fun _ _ _ _ _ _ _ => rfl⟩⟩

theorem mark_mmio_exact_sample :
    ∃ s' info, pagingInit sampleBoot sampleAcpi true ⟨sampleMachine, 0⟩ = (s', some info) ∧
      MarkExact info s'.phys.mem 0x200000 0x1000 (pagingMarkMmio info s'.phys.mem
        0x200000 0x1000) := by
  obtain ⟨info, hinfo⟩ : ∃ info, (pagingInit sampleBoot sampleAcpi true ⟨sampleMachine, 0⟩).2 =
    some info := Option.isSome_iff_exists.mp (by decide +kernel)
  refine ⟨_, info, built_eq hinfo, ?_⟩
  exact (mark_mmio_exact_iff sampleMachine_pmmOk (built_eq hinfo) .refl _ _).mpr
    (Or.inl fun hc => absurd hc.2 (by decide))

/-- Two regions, the second one without devices. -/
def plainAcpi : AcpiInfo := ⟨0x3000, 0x4000⟩

/-- The call fails, and has marked the second region. -/
theorem mark_mmio_fails_halfway :
    ∃ s' info, pagingInit sampleBoot plainAcpi true ⟨sampleMachine, 0⟩ = (s', some info) ∧
      ¬ MarkExact info s'.phys.mem 0x200000 0xFFFFFFFFFFE00000
        (pagingMarkMmio info s'.phys.mem 0x200000 0xFFFFFFFFFFE00000) := by
  have hrun : (let built := pagingInit sampleBoot plainAcpi true ⟨sampleMachine, 0⟩
      built.2.any fun info =>
        let r := pagingMarkMmio info built.1.phys.mem 0x200000 0xFFFFFFFFFFE00000
        !r.2 && (tableAt built.1.phys.mem info.rootTable [0, 0]).any fun pd =>
          entryAt r.1 pd 1 ≠ entryAt built.1.phys.mem pd 1) = true := by
    decide +kernel
  obtain ⟨info, hinfo, hcheck⟩ := (Option.any_eq_true _ _).mp hrun
  rw [Bool.and_eq_true, Bool.not_eq_true'] at hcheck
  obtain ⟨pd, hpd, hchanged⟩ := (Option.any_eq_true _ _).mp hcheck.2
  refine ⟨_, info, built_eq hinfo, fun hexact => ?_⟩
  exact of_decide_eq_true hchanged
    (hexact.refused hcheck.1 [0, 0] pd 1 (by decide) hpd (by decide))

end ArgusOs.Memory
