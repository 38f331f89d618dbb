/-
  User page tables refine a partial map.

  What a user space is for is a map from virtual pages to leaf entries (`UserMap`). The tree of
  tables that represents it is tied to the map by `TableTree`: `tables` gives, for every path
  of indices from the root, the table there. Different paths lead to different table pages;
  an entry below the root either points to the table of its path or is absent; and root
  entries other than the user window's are the kernel's, which no user may use. `RootedTree`
  leaves open what is known of those entries: no operation here touches them.

    paging_user_translate   looks the map up                     `TableTree.translate`
    paging_user_map_page    adds one page or changes no mapping  `pagingUserMapPage_spec`

  `Grows` is what any of these steps may do to memory and allocator on the way.
-/
import ArgusOs.Memory.Paging

namespace ArgusOs.Memory

open Lib Function

variable {index vpn : Nat} {table : UInt64} {path : List Nat} {space space' : UserSpace}
  {tables : List Nat → Option UInt64} {s s' : Phys}

/-- Leaf entries by virtual page number (bits 12 to 47 of the address). -/
abbrev UserMap := Nat → Option UInt64

def vpnOf (virtualAddress : UInt64) : Nat := virtualAddress.toNat / 4096 % 2 ^ 36

/-- The indices of the three tables on the way to a page. -/
def tablePath (vpn : Nat) : List Nat := [vpn / 2 ^ 27, vpn / 2 ^ 18 % 512, vpn / 2 ^ 9 % 512]

def UserSpace.frames (space : UserSpace) : List Nat := space.tablePages.map frameOf

/-- An entry with a table below it, or without. -/
def NodeEntry (entry : UInt64) : Option UInt64 → Prop
  | none => entry &&& pagePresent = 0
  | some child => entry = tableEntry child

/-- An entry of a last-level table, against the map. -/
def LeafEntry (entry : UInt64) : Option UInt64 → Prop
  | none => entry &&& pagePresent = 0
  | some leaf => entry = leaf ∧ leaf &&& pagePresent ≠ 0 ∧ leaf &&& pageUser ≠ 0

/-! ## Trees of tables -/

theorem frameOf_inj {a b : UInt64} (ha : PageAddress a) (hb : PageAddress b)
    (h : frameOf a = frameOf b) : a = b := by
  have h1 := ha.1
  have h2 := hb.1
  unfold frameOf argusPageSize at h
  rw [← UInt64.toNat_inj]
  omega

/-- Different paths lead to different table pages, and a table hangs below another. -/
structure Nodes (tables : List Nat → Option UInt64) : Prop where
  page : ∀ path table, tables path = some table → PageAddress table
  inj : ∀ path path' table, tables path = some table → tables path' = some table → path = path'
  parent : ∀ path index, tables (path ++ [index]) ≠ none → tables path ≠ none

section Nodes

variable {mem mem₁ : Mem} {path' : List Nat} {table' child : UInt64} {index' : Nat}

theorem Nodes.frame_ne (h : Nodes tables) (ht : tables path = some table)
    (ht' : tables path' = some table') (hne : path ≠ path') : frameOf table ≠ frameOf table' := by
  intro hf
  have := frameOf_inj (h.page path table ht) (h.page path' table' ht') hf
  subst this
  exact hne (h.inj path path' table ht ht')

/-- An entry of another place keeps its value when one entry is set. -/
theorem Nodes.entryAt_set (h : Nodes tables) (ht : tables path = some table)
    (ht' : tables path' = some table') (hi : index < 512) (hi' : index' < 512)
    (hother : path' ≠ path ∨ index' ≠ index) (entry : UInt64)
    (hsame : entryAt mem₁ table' index' = entryAt mem table' index') :
    entryAt (setEntry mem₁ table index entry) table' index' = entryAt mem table' index' := by
  by_cases hp : path' = path
  · subst hp
    rw [ht, Option.some.injEq] at ht'
    subst ht'
    rw [entryAt_setEntry_of_ne _ _ (hother.resolve_left fun hc => hc rfl), hsame]
  · rw [← hsame]
    apply entryAt_congr (h.page path' table' ht').1 hi'
    intro a ha
    apply setEntry_sameOutside _ (h.page path table ht).1 hi
    rw [ha, List.mem_singleton]
    exact h.frame_ne ht' ht hp

theorem Nodes.below (h : Nodes tables) (hnone : tables path = none) (index' : Nat) :
    tables (path ++ [index']) = none := by
  by_contra hc
  exact h.parent _ index' hc hnone

theorem place_ne (h : path' ++ [index'] ≠ path ++ [index]) : path' ≠ path ∨ index' ≠ index := by
  by_contra hc
  rw [not_or, not_not, not_not] at hc
  exact h (by rw [hc.1, hc.2])

theorem append_singleton_inj (h : path' ++ [index'] = path ++ [index]) :
    path' = path ∧ index' = index := by
  obtain ⟨hpath, hindex⟩ := List.append_inj' h rfl
  exact ⟨hpath, List.singleton_inj.mp hindex⟩

/-- With one more table, a table is the new one or one of the old. -/
theorem grown_cases {place : List Nat} (h : update tables place (some child) path' = some table') :
    (path' = place ∧ table' = child) ∨ (path' ≠ place ∧ tables path' = some table') := by
  by_cases hp : path' = place
  · rw [hp, update_self, Option.some.injEq] at h
    exact Or.inl ⟨hp, h.symm⟩
  · rw [update_of_ne hp] at h
    exact Or.inr ⟨hp, h⟩

variable (h : Nodes tables) (ht : tables path = some table)
  (hne : ∀ path' table', tables path' = some table' → frameOf table' ≠ frameOf child)

include h ht hne

theorem Nodes.grow (hchild : PageAddress child) :
    Nodes (update tables (path ++ [index]) (some child)) := by
  refine ⟨?_, ?_, ?_⟩
  · intro path' table' ht'
    rcases grown_cases ht' with ⟨-, rfl⟩ | ⟨-, hold⟩
    · exact hchild
    · exact h.page path' table' hold
  · intro path₁ path₂ table' h₁ h₂
    rcases grown_cases h₁ with ⟨hp₁, hc₁⟩ | ⟨-, hold₁⟩
    · rcases grown_cases h₂ with ⟨hp₂, -⟩ | ⟨-, hold₂⟩
      · rw [hp₁, hp₂]
      · exact absurd (by rw [hc₁]) (hne path₂ table' hold₂)
    · rcases grown_cases h₂ with ⟨-, hc₂⟩ | ⟨-, hold₂⟩
      · exact absurd (by rw [hc₂]) (hne path₁ table' hold₁)
      · exact h.inj path₁ path₂ table' hold₁ hold₂
  · intro path' index' hc
    by_cases hp : path' = path ++ [index]
    · rw [hp, update_self]
      simp
    · rw [update_of_ne hp]
      by_cases hp' : path' ++ [index'] = path ++ [index]
      · rw [(append_singleton_inj hp').1, ht]
        simp
      · rw [update_of_ne hp'] at hc
        exact h.parent path' index' hc

theorem Nodes.entryAt_old (hsame : SameOutside [frameOf child] mem mem₁) (hi : index < 512)
    (entry : UInt64) (ht' : tables path' = some table') (hi' : index' < 512)
    (hother : path' ≠ path ∨ index' ≠ index) :
    entryAt (setEntry mem₁ table index entry) table' index' = entryAt mem table' index' := by
  refine h.entryAt_set ht ht' hi hi' hother entry ?_
  apply entryAt_congr (h.page path' table' ht').1 hi'
  intro a ha
  apply hsame
  rw [ha, List.mem_singleton]
  exact hne path' table' ht'

theorem Nodes.entryAt_new (hchild : PageAddress child) (hi : index < 512) (entry : UInt64)
    (hi' : index' < 512) :
    entryAt (setEntry mem₁ table index entry) child index' = entryAt mem₁ child index' := by
  apply entryAt_congr hchild.1 hi'
  intro a ha
  apply setEntry_sameOutside _ (h.page path table ht).1 hi
  rw [ha, List.mem_singleton]
  exact (hne path table ht).symm

end Nodes

/-! ## User tables -/

structure RootedTree (outside : Nat → UInt64 → Prop) (mem : Mem) (space : UserSpace)
    (tables : List Nat → Option UInt64) (map : UserMap) : Prop where
  root : tables [] = some space.rootTable
  root_ne : space.rootTable ≠ 0
  base : space.userBase = argusUserBase
  listed : ∀ path table, tables path = some table → table ∈ space.tablePages
  pages : ∀ table ∈ space.tablePages, PageAddress table
  inj : ∀ path path' table, tables path = some table → tables path' = some table → path = path'
  parent : ∀ path index, tables (path ++ [index]) ≠ none → tables path ≠ none
  window : ∀ index, tables [index] ≠ none → index = 1
  kernel : ∀ index, index < 512 → index ≠ 1 → outside index (entryAt mem space.rootTable index)
  node : ∀ path table index, tables path = some table → path.length < 3 → index < 512 →
    (path ≠ [] ∨ index = 1) → NodeEntry (entryAt mem table index) (tables (path ++ [index]))
  leaf : ∀ vpn table, vpn < 2 ^ 36 → tables (tablePath vpn) = some table →
    LeafEntry (entryAt mem table (vpn % 512)) (map vpn)
  covered : ∀ vpn, map vpn ≠ none → vpn < 2 ^ 36 ∧ tables (tablePath vpn) ≠ none

/-- The kernel's entries are for the supervisor only. -/
abbrev TableTree (mem : Mem) (space : UserSpace) (tables : List Nat → Option UInt64)
    (map : UserMap) : Prop :=
  RootedTree (fun _ entry => entry &&& pageUser = 0) mem space tables map

section Tree

variable {outside : Nat → UInt64 → Prop} {mem mem' : Mem} {map : UserMap}

section

variable (h : RootedTree outside mem space tables map)

include h

theorem RootedTree.pageAddress (ht : tables path = some table) : PageAddress table :=
  h.pages table (h.listed path table ht)

theorem RootedTree.frame_mem (ht : tables path = some table) : frameOf table ∈ space.frames :=
  List.mem_map_of_mem (h.listed path table ht)

theorem RootedTree.nodes : Nodes tables :=
  ⟨fun _ _ ht => h.pageAddress ht, h.inj, h.parent⟩

/-- Memory outside the table pages is of no concern. -/
theorem RootedTree.frame (hsame : ∀ a, a / argusPageSize ∈ space.frames → mem' a = mem a) :
    RootedTree outside mem' space tables map := by
  have hentry : ∀ path table index, tables path = some table → index < 512 →
      entryAt mem' table index = entryAt mem table index := by
    intro path table index ht hi
    apply entryAt_congr (h.pageAddress ht).1 hi
    intro a ha
    apply hsame
    rw [ha]
    exact h.frame_mem ht
  refine { h with kernel := ?_, node := ?_, leaf := ?_ }
  · intro index hi hne
    rw [hentry [] _ index h.root hi]
    exact h.kernel index hi hne
  · intro path table index ht hlen hi hwin
    rw [hentry path table index ht hi]
    exact h.node path table index ht hlen hi hwin
  · intro vpn table hv ht
    rw [hentry _ table _ ht (Nat.mod_lt _ (by decide))]
    exact h.leaf vpn table hv ht

/-! ## Lookup -/

theorem RootedTree.walk (ht : tables path = some table) (hlen : path.length < 3) (hi : index < 512)
    (hwin : path ≠ [] ∨ index = 1) (large : Bool) :
    walkLevel mem table index large = tables (path ++ [index]) := by
  have hnode := h.node path table index ht hlen hi hwin
  unfold walkLevel
  dsimp only
  cases hc : tables (path ++ [index]) with
  | none =>
    rw [hc] at hnode
    exact if_pos (Or.inl hnode)
  | some child =>
    rw [hc] at hnode
    have hpage := h.pageAddress hc
    rw [show entryAt mem table index = tableEntry child from hnode, tableEntry_address hpage,
      if_neg]
    simp [tableEntry_present hpage, tableEntry_user hpage, tableEntry_large hpage]

end

theorem tableIndex_vpn (address : UInt64) :
    [tableIndex address 39, tableIndex address 30, tableIndex address 21] =
      tablePath (vpnOf address) ∧
    tableIndex address 12 = vpnOf address % 512 := by
  have hlt := address.toNat_lt
  rw [tableIndex_eq _ 39 (by decide), tableIndex_eq _ 30 (by decide),
    tableIndex_eq _ 21 (by decide), tableIndex_eq _ 12 (by decide)]
  have h39 : (39 : UInt64).toNat = 39 := rfl
  have h30 : (30 : UInt64).toNat = 30 := rfl
  have h21 : (21 : UInt64).toNat = 21 := rfl
  have h12 : (12 : UInt64).toNat = 12 := rfl
  rw [h39, h30, h21, h12]
  unfold tablePath vpnOf
  refine ⟨?_, by omega⟩
  rw [List.cons.injEq, List.cons.injEq, List.cons.injEq]
  exact ⟨by omega, by omega, by omega, rfl⟩

theorem vpnOf_lt (address : UInt64) : vpnOf address < 2 ^ 36 :=
  Nat.mod_lt _ (by decide)

theorem RootedTree.map_eq_none (h : RootedTree outside mem space tables map)
    (ht : tables (tablePath vpn) = none) : map vpn = none := by
  by_contra hc
  exact (h.covered vpn hc).2 ht

/-- The tables on the way to a mapped page. -/
theorem RootedTree.tables_of_mapped (h : RootedTree outside mem space tables map)
    (hm : map vpn ≠ none) : vpn < 2 ^ 36 ∧ tables [vpn / 2 ^ 27] ≠ none ∧
      tables [vpn / 2 ^ 27, vpn / 2 ^ 18 % 512] ≠ none ∧ tables (tablePath vpn) ≠ none := by
  obtain ⟨hv, h3⟩ := h.covered vpn hm
  have h2 := h.parent [vpn / 2 ^ 27, vpn / 2 ^ 18 % 512] _ h3
  exact ⟨hv, h.parent [vpn / 2 ^ 27] _ h2, h2, h3⟩

/-- Translation is lookup, in the user window. -/
theorem RootedTree.translate (h : RootedTree outside mem space tables map)
    {address : UInt64} (hwin : tableIndex address 39 = 1) :
    pagingUserTranslate mem space address =
      (map (vpnOf address)).map fun leaf =>
        ((leaf &&& pageAddressMask) ||| (address &&& 4095), leaf &&& ~~~pageAddressMask) := by
  obtain ⟨hpath, hlast⟩ := tableIndex_vpn address
  have hlt := tableIndex_lt address
  unfold pagingUserTranslate
  rw [if_neg h.root_ne, h.walk h.root (by simp) (hlt 39) (Or.inr hwin)]
  -- a missing table on the way down means that the map has nothing there
  have hnone : ∀ i j k, [i, j, k] = tablePath (vpnOf address) →
      (tables [i] = none ∨ tables [i, j] = none ∨ tables [i, j, k] = none) →
      map (vpnOf address) = none := by
    intro i j k hijk hmiss
    by_contra hc
    obtain ⟨-, h1, h2, h3⟩ := h.tables_of_mapped hc
    unfold tablePath at hijk h3
    rw [← hijk] at h3
    rw [List.cons.injEq, List.cons.injEq] at hijk
    rw [← hijk.1] at h1 h2
    rw [← hijk.2.1] at h2
    rcases hmiss with hm | hm | hm
    · exact h1 hm
    · exact h2 hm
    · exact h3 hm
  cases h1 : tables ([] ++ [tableIndex address 39]) with
  | none => rw [hnone _ _ _ hpath (Or.inl h1)]; rfl
  | some pdpt =>
    dsimp only
    rw [h.walk h1 (by simp) (hlt 30) (Or.inl (by simp))]
    cases h2 : tables ([] ++ [tableIndex address 39] ++ [tableIndex address 30]) with
    | none => rw [hnone _ _ _ hpath (Or.inr (Or.inl h2))]; rfl
    | some pd =>
      dsimp only
      rw [h.walk h2 (by simp) (hlt 21) (Or.inl (by simp))]
      cases h3 : tables ([] ++ [tableIndex address 39] ++ [tableIndex address 30] ++
          [tableIndex address 21]) with
      | none => rw [hnone _ _ _ hpath (Or.inr (Or.inr h3))]; rfl
      | some pt =>
        have h3' : tables (tablePath (vpnOf address)) = some pt := by rw [← hpath, ← h3]; rfl
        have hleaf := h.leaf _ pt (vpnOf_lt address) h3'
        dsimp only
        rw [hlast]
        cases hm : map (vpnOf address) with
        | none =>
          rw [hm] at hleaf
          exact if_pos (Or.inl hleaf)
        | some leaf =>
          rw [hm] at hleaf
          obtain ⟨heq, hp, hu⟩ := hleaf
          rw [heq, if_neg (by simp [hp, hu])]
          rfl

/-- Translation is lookup, for every 64-bit address, if the kernel's entries are not for users. -/
theorem TableTree.translate (h : TableTree mem space tables map) (address : UInt64) :
    pagingUserTranslate mem space address =
      (map (vpnOf address)).map fun leaf =>
        ((leaf &&& pageAddressMask) ||| (address &&& 4095), leaf &&& ~~~pageAddressMask) := by
  by_cases hwin : tableIndex address 39 = 1
  · exact RootedTree.translate h hwin
  · have hroot := h.kernel _ (tableIndex_lt address 39) hwin
    have hnone : map (vpnOf address) = none := by
      by_contra hc
      obtain ⟨hpath, -⟩ := tableIndex_vpn address
      unfold tablePath at hpath
      rw [List.cons.injEq] at hpath
      apply hwin
      rw [hpath.1]
      exact h.window _ (h.tables_of_mapped hc).2.1
    unfold pagingUserTranslate walkLevel
    dsimp only
    rw [if_neg h.root_ne, if_pos (Or.inr (Or.inl hroot)), hnone]
    rfl

/-! ## Growing the tree -/

/-- A fresh zeroed page hung below an absent entry is one more table; no mapping changes. -/
theorem RootedTree.grow (h : RootedTree outside mem space tables map) {child : UInt64}
    (ht : tables path = some table) (hlen : path.length < 3) (hi : index < 512)
    (hwin : path ≠ [] ∨ index = 1) (hnone : tables (path ++ [index]) = none)
    (hchild : PageAddress child) (hfresh : frameOf child ∉ space.frames) :
    RootedTree outside (setEntry (zeroPage mem child) table index (tableEntry child))
      { space with tablePages := space.tablePages ++ [child] }
      (update tables (path ++ [index]) (some child)) map := by
  have hne : ∀ path' table', tables path' = some table' → frameOf table' ≠ frameOf child := by
    intro path' table' ht' hf
    rw [← hf] at hfresh
    exact hfresh (h.frame_mem ht')
  have hold : ∀ path' table' index', tables path' = some table' → index' < 512 →
      (path' ≠ path ∨ index' ≠ index) →
      entryAt (setEntry (zeroPage mem child) table index (tableEntry child)) table' index' =
        entryAt mem table' index' :=
    fun _ _ _ => h.nodes.entryAt_old ht hne (zeroPage_sameOutside mem hchild.1) hi _
  have hnew : ∀ index', index' < 512 →
      entryAt (setEntry (zeroPage mem child) table index (tableEntry child)) child index' = 0 := by
    intro index' hi'
    rw [h.nodes.entryAt_new ht hne hchild hi _ hi', entryAt_zeroPage mem child hi']
  have hgrow : Nodes (update tables (path ++ [index]) (some child)) :=
    h.nodes.grow ht hne hchild
  refine
    { root := ?_, root_ne := h.root_ne, base := h.base, listed := ?_, pages := ?_, inj := hgrow.inj,
      parent := hgrow.parent, window := ?_, kernel := ?_, node := ?_, leaf := ?_, covered := ?_ }
  · rw [update_of_ne (by simp)]
    exact h.root
  · intro path' table' ht'
    rcases grown_cases ht' with ⟨-, rfl⟩ | ⟨-, hwas⟩
    · simp
    · exact List.mem_append_left _ (h.listed path' table' hwas)
  · intro table' hm
    rw [List.mem_append, List.mem_singleton] at hm
    rcases hm with hm | rfl
    · exact h.pages table' hm
    · exact hchild
  · intro index' hc
    by_cases hp : [index'] = path ++ [index]
    · rw [← List.nil_append [index']] at hp
      obtain ⟨rfl, rfl⟩ := append_singleton_inj hp
      exact hwin.resolve_left fun hc => hc rfl
    · rw [update_of_ne hp] at hc
      exact h.window index' hc
  · intro index' hi' hne1
    rw [hold [] _ index' h.root hi' ?_]
    · exact h.kernel index' hi' hne1
    · by_cases hp : path = []
      · right
        rw [hwin.resolve_left fun hc => hc hp]
        exact hne1
      · exact Or.inl (Ne.symm hp)
  · intro path' table' index' ht' hlen' hi' hwin'
    rcases grown_cases ht' with ⟨rfl, rfl⟩ | ⟨-, hwas⟩
    · rw [update_of_ne (by simp), h.nodes.below hnone, hnew index' hi']
      exact UInt64.zero_and
    · by_cases hp' : path' ++ [index'] = path ++ [index]
      · obtain ⟨rfl, rfl⟩ := append_singleton_inj hp'
        rw [ht, Option.some.injEq] at hwas
        subst hwas
        rw [update_self]
        exact entryAt_setEntry ..
      · rw [update_of_ne hp', hold _ _ _ hwas hi' (place_ne hp')]
        exact h.node path' table' index' hwas hlen' hi' hwin'
  · intro vpn table' hv ht'
    have hlast : vpn % 512 < 512 := Nat.mod_lt _ (by decide)
    rcases grown_cases ht' with ⟨hp, rfl⟩ | ⟨-, hwas⟩
    · rw [hnew _ hlast, h.map_eq_none (by rw [hp, hnone])]
      exact UInt64.zero_and
    · rw [hold _ _ _ hwas hlast ?_]
      · exact h.leaf vpn table' hv hwas
      · left
        intro hc
        rw [← hc] at hlen
        simp [tablePath] at hlen
  · intro vpn hm
    obtain ⟨hv, hc⟩ := h.covered vpn hm
    refine ⟨hv, ?_⟩
    by_cases hp : tablePath vpn = path ++ [index]
    · rw [hp, update_self]
      simp
    · rw [update_of_ne hp]
      exact hc

/-- Setting an absent leaf entry adds one page to the map. -/
theorem RootedTree.set_leaf (h : RootedTree outside mem space tables map) {leaf : UInt64}
    (hv : vpn < 2 ^ 36) (ht : tables (tablePath vpn) = some table) (hp : leaf &&& pagePresent ≠ 0)
    (hu : leaf &&& pageUser ≠ 0) :
    RootedTree outside (setEntry mem table (vpn % 512) leaf) space tables
      (update map vpn (some leaf)) := by
  have hlast : vpn % 512 < 512 := Nat.mod_lt _ (by decide)
  have hold : ∀ path' table' index', tables path' = some table' → index' < 512 →
      (path' ≠ tablePath vpn ∨ index' ≠ vpn % 512) →
      entryAt (setEntry mem table (vpn % 512) leaf) table' index' = entryAt mem table' index' :=
    fun _ _ _ ht' hi' hother => h.nodes.entryAt_set ht ht' hlast hi' hother leaf rfl
  refine { h with kernel := ?_, node := ?_, leaf := ?_, covered := ?_ }
  · intro index hi hne
    rw [hold [] _ index h.root hi (Or.inl (by simp [tablePath]))]
    exact h.kernel index hi hne
  · intro path' table' index ht' hlen hi hwin
    rw [hold path' table' index ht' hi (Or.inl ?_)]
    · exact h.node path' table' index ht' hlen hi hwin
    · intro hc
      rw [hc] at hlen
      simp [tablePath] at hlen
  · intro vpn' table' hv' ht'
    by_cases hvv : vpn' = vpn
    · subst hvv
      rw [ht, Option.some.injEq] at ht'
      subst ht'
      rw [update_self, entryAt_setEntry]
      exact ⟨rfl, hp, hu⟩
    · rw [update_of_ne hvv, hold _ table' _ ht' (Nat.mod_lt _ (by decide)) ?_]
      · exact h.leaf vpn' table' hv' ht'
      · -- the path and the last index together determine the page
        by_contra hc
        rw [not_or, not_not, not_not] at hc
        obtain ⟨hpath, hidx⟩ := hc
        simp only [tablePath, List.cons.injEq] at hpath
        omega
  · intro vpn' hm
    by_cases hvv : vpn' = vpn
    · subst hvv
      exact ⟨hv, by rw [ht]; simp⟩
    · rw [update_of_ne hvv] at hm
      exact h.covered vpn' hm

end Tree

/-- The tables in memory represent the map, and the kernel's entries are as stated. -/
def RepresentsWith (outside : Nat → UInt64 → Prop) (mem : Mem) (space : UserSpace)
    (map : UserMap) : Prop :=
  ∃ tables, RootedTree outside mem space tables map

/-- The tables in memory represent the map. -/
def Represents (mem : Mem) (space : UserSpace) (map : UserMap) : Prop :=
  ∃ tables, TableTree mem space tables map

/-! ## What the operations do to memory and allocator -/

/-- A user space that may have gained tables: they are fresh pages in front of whatever else is
    held, and memory outside the tables is unchanged. -/
structure Grows (s : Phys) (space : UserSpace) (s' : Phys) (space' : UserSpace) : Prop where
  tables : ∃ new, space'.tablePages = space.tablePages ++ new ∧
    s'.pmm.freeCount + new.length = s.pmm.freeCount
  root_eq : space'.rootTable = space.rootTable
  base_eq : space'.userBase = space.userBase
  nx_eq : space'.nxEnabled = space.nxEnabled
  pmm_ok : PmmOk s'.pmm
  page_count : s'.pmm.pageCount = s.pmm.pageCount
  held : ∀ frames, Held s.pmm (space.frames ++ frames) → Held s'.pmm (space'.frames ++ frames)
  mem : SameOutside space'.frames s.mem s'.mem

theorem Grows.refl (hok : PmmOk s.pmm) (space : UserSpace) : Grows s space s space where
  tables := ⟨[], by simp, rfl⟩
  root_eq := rfl
  base_eq := rfl
  nx_eq := rfl
  pmm_ok := hok
  page_count := rfl
  held := fun _ h => h
  mem := SameOutside.refl _ _

theorem Grows.frames_subset (h : Grows s space s' space') : space.frames ⊆ space'.frames := by
  obtain ⟨new, hnew, -⟩ := h.tables
  unfold UserSpace.frames
  rw [hnew, List.map_append]
  exact List.subset_append_left _ _

theorem Grows.trans {s'' : Phys} {space'' : UserSpace} (h : Grows s space s' space')
    (h' : Grows s' space' s'' space'') : Grows s space s'' space'' := by
  obtain ⟨new, hnew, hfree⟩ := h.tables
  obtain ⟨new', hnew', hfree'⟩ := h'.tables
  refine
    { tables := ⟨new ++ new', ?_, ?_⟩, root_eq := h'.root_eq.trans h.root_eq,
      base_eq := h'.base_eq.trans h.base_eq, nx_eq := h'.nx_eq.trans h.nx_eq, pmm_ok := h'.pmm_ok,
      page_count := h'.page_count.trans h.page_count, held := ?_,
      mem := h.mem.trans h'.mem h'.frames_subset }
  · rw [hnew', hnew, List.append_assoc]
  · rw [List.length_append]
    omega
  · intro frames hheld
    exact h'.held frames (h.held frames hheld)

/-- One page from the allocator: nothing, or a fresh page address. -/
theorem pmmAllocPage_spec {pmm : Pmm} (hok : PmmOk pmm) :
    pmmAllocPage pmm = (pmm, 0) ∨
    ∃ address pmm', pmmAllocPage pmm = (pmm', address) ∧ address ≠ 0 ∧ PageAddress address ∧
      PmmOk pmm' ∧ pmm'.pageCount = pmm.pageCount ∧ pmm'.freeCount + 1 = pmm.freeCount ∧
      ∀ frames, Held pmm frames → Held pmm' (frameOf address :: frames) := by
  rcases pmmAllocPages_spec hok 1 with h | ⟨start, address, pmm', h, haddr, hne, hle,
    h1, h2, h3, h4⟩
  · exact Or.inl h
  · have hcount := hok.page_count
    unfold argusPageSize at haddr
    have hpage : PageAddress address := ⟨by omega, by omega⟩
    have hframe : frameOf address = start := by
      unfold frameOf argusPageSize
      omega
    refine Or.inr ⟨address, pmm', h, hne, hpage, h1, h2, h3, ?_⟩
    intro frames hheld
    rw [hframe]
    exact h4 frames hheld

theorem allocateUserTable_spec (hok : PmmOk s.pmm) (space : UserSpace) :
    allocateUserTable s space = (s, space, 0) ∨
    ∃ child pmm', allocateUserTable s space = (⟨zeroPage s.mem child, pmm'⟩,
        { space with tablePages := space.tablePages ++ [child] }, child) ∧
      child ≠ 0 ∧ PageAddress child ∧ PmmOk pmm' ∧ pmm'.pageCount = s.pmm.pageCount ∧
      pmm'.freeCount + 1 = s.pmm.freeCount ∧
      ∀ frames, Held s.pmm frames → Held pmm' (frameOf child :: frames) := by
  unfold allocateUserTable
  split
  · exact Or.inl rfl
  · rcases pmmAllocPage_spec hok with h | ⟨child, pmm', h, hne, hrest⟩
    · left
      rw [h]
      rfl
    · right
      refine ⟨child, pmm', ?_, hne, hrest⟩
      rw [h]
      dsimp only
      rw [if_neg hne]

theorem descend_spec {outside : Nat → UInt64 → Prop} {map : UserMap} (hok : PmmOk s.pmm)
    (h : RootedTree outside s.mem space tables map) (hheld : Held s.pmm space.frames)
    (ht : tables path = some table) (hlen : path.length < 3) (hi : index < 512)
    (hwin : path ≠ [] ∨ index = 1) (large : Bool) :
    descend s space table index large = (s, space, none) ∨
    ∃ s' space' child tables', descend s space table index large = (s', space', some child) ∧
      Grows s space s' space' ∧ RootedTree outside s'.mem space' tables' map ∧
      tables' (path ++ [index]) = some child := by
  have hnode := h.node path table index ht hlen hi hwin
  unfold descend
  cases hc : tables (path ++ [index]) with
  | some child =>
    -- the entry is present: nothing is allocated
    rw [hc] at hnode
    have hpage := h.pageAddress hc
    have hentry : entryAt s.mem table index = tableEntry child := hnode
    refine Or.inr ⟨s, space, child, tables, ?_, Grows.refl hok space, h, hc⟩
    rw [hentry, if_neg (tableEntry_present hpage)]
    dsimp only
    rw [hentry, if_neg (by simp [tableEntry_user hpage, tableEntry_large hpage]),
      tableEntry_address hpage]
  | none =>
    rw [hc] at hnode
    rw [if_pos (show entryAt s.mem table index &&& pagePresent = 0 from hnode)]
    rcases allocateUserTable_spec hok space with
      heq | ⟨child, pmm', heq, hne, hpage, hok', hcount, hfree, hfresh⟩
    · left
      rw [heq]
      simp
    · right
      rw [heq]
      dsimp only
      rw [if_neg hne]
      dsimp only
      have hentry : entryAt (setEntry (zeroPage s.mem child) table index
          (child ||| pagePresent ||| pageWritable ||| pageUser)) table index = tableEntry child :=
        entryAt_setEntry ..
      have hnotin : frameOf child ∉ space.frames :=
        (List.nodup_cons.mp (hfresh space.frames hheld).nodup).1
      have hframes : UserSpace.frames { space with tablePages := space.tablePages ++ [child] } =
          space.frames ++ [frameOf child] := by
        simp [UserSpace.frames]
      refine ⟨⟨setEntry (zeroPage s.mem child) table index (tableEntry child), pmm'⟩,
        { space with tablePages := space.tablePages ++ [child] }, child,
        update tables (path ++ [index]) (some child), ?_, ?_,
        h.grow ht hlen hi hwin hc hpage hnotin, update_self ..⟩
      · rw [hentry, if_neg (by simp [tableEntry_user hpage, tableEntry_large hpage]),
          tableEntry_address hpage]
        rfl
      · refine
          { tables := ⟨[child], rfl, hfree⟩, root_eq := rfl, base_eq := rfl, nx_eq := rfl,
            pmm_ok := hok', page_count := hcount, held := ?_, mem := ?_ }
        · intro frames hf
          rw [hframes]
          exact (hfresh _ hf).perm (by
            rw [List.append_assoc]
            exact List.perm_middle.symm)
        · rw [hframes]
          have hz := zeroPage_sameOutside s.mem hpage.1
          have he := setEntry_sameOutside (zeroPage s.mem child) (h.pageAddress ht).1 hi
            (tableEntry child)
          refine (hz.mono ?_).trans (he.mono ?_) (List.Subset.refl _)
          · exact List.subset_append_right _ _
          · intro f hf
            rw [List.mem_singleton] at hf
            rw [hf]
            exact List.mem_append_left _ (h.frame_mem ht)

/-! ## Mapping a page -/

/-- The arguments `paging_user_map_page` accepts. -/
structure MapArgs (virtualAddress physicalAddress : UInt64) : Prop where
  virtual_aligned : virtualAddress.toNat % 4096 = 0
  physical_aligned : physicalAddress.toNat % 4096 = 0
  low : 2 ^ 39 ≤ virtualAddress.toNat
  high : virtualAddress.toNat < 2 ^ 40

theorem and_4095_eq_zero {a : UInt64} : a &&& 4095 = 0 ↔ a.toNat % 4096 = 0 := by
  rw [← UInt64.toNat_inj, toNat_and_low a 4095 12 rfl]
  rfl

theorem mapArgs_iff (hroot : space.rootTable ≠ 0) (hbase : space.userBase = argusUserBase)
    (address physicalAddress : UInt64) :
    ¬ (space.rootTable = 0 ∨ address &&& 4095 ≠ 0 ∨ physicalAddress &&& 4095 ≠ 0 ∨
      address < space.userBase ∨ address ≥ space.userBase + (1 : UInt64) <<< 39) ↔
    MapArgs address physicalAddress := by
  have hlow : argusUserBase.toNat = 2 ^ 39 := rfl
  have hhigh : (argusUserBase + (1 : UInt64) <<< 39).toNat = 2 ^ 40 := by decide
  simp only [not_or, not_not, hroot, not_false_eq_true, true_and, and_4095_eq_zero, hbase,
    ge_iff_le, UInt64.le_iff_toNat_le, UInt64.lt_iff_toNat_lt, hlow, hhigh, Nat.not_lt, Nat.not_le]
  constructor
  · intro h
    exact ⟨h.1, h.2.1, h.2.2.1, h.2.2.2⟩
  · intro h
    exact ⟨h.1, h.2, h.3, h.4⟩

/-- The leaf entry `paging_user_map_page` writes. -/
def leafEntry (nxEnabled : Bool) (physicalAddress : UInt64) (writable executable : Bool) : UInt64 :=
  physicalAddress ||| leafFlags nxEnabled writable executable

theorem leafFlags_present (nxEnabled writable executable : Bool) :
    leafFlags nxEnabled writable executable &&& pagePresent ≠ 0 ∧
      leafFlags nxEnabled writable executable &&& pageUser ≠ 0 := by
  revert nxEnabled writable executable
  decide

theorem leafEntry_present (nxEnabled : Bool) (physicalAddress : UInt64)
    (writable executable : Bool) :
    leafEntry nxEnabled physicalAddress writable executable &&& pagePresent ≠ 0 ∧
      leafEntry nxEnabled physicalAddress writable executable &&& pageUser ≠ 0 := by
  have h := leafFlags_present nxEnabled writable executable
  unfold leafEntry
  rw [Ne, Ne, or_and_bit_eq_zero _ _ _ 0 (by decide), or_and_bit_eq_zero _ _ _ 2 (by decide)]
  exact ⟨fun hc => h.1 hc.2, fun hc => h.2 hc.2⟩

section Leaf

variable {physical : UInt64} (nxEnabled writable executable : Bool)

variable (h : PageAddress physical)

include h

/-- The low flags and the no-execute bit of a leaf, as numbers. -/
theorem leafEntry_toNat :
    (leafEntry nxEnabled physical writable executable).toNat =
      physical.toNat + (5 + 2 * writable.toNat) + 2 ^ 63 * (!executable && nxEnabled).toNat := by
  have hlow : ∀ f : UInt64, f.toNat < 8 → (physical ||| f).toNat = physical.toNat + f.toNat :=
    fun f hf => toNat_or_of_lt physical f 12 h.1 (by omega)
  have hnx : ∀ f : UInt64, f.toNat < 8 →
      (physical ||| (f ||| pageNx)).toNat = physical.toNat + f.toNat + 2 ^ 63 := by
    intro f hf
    have hp := h.2
    have hn : pageNx.toNat = 2 ^ 63 := by decide
    rw [← UInt64.or_assoc, UInt64.or_comm, toNat_or_of_lt pageNx (physical ||| f) 63
      (by rw [hn, Nat.mod_self]) (by rw [hlow f hf]; omega), hlow f hf, hn]
    omega
  have hflags : ∀ w : Bool, (if w = true then (pagePresent ||| pageUser) ||| pageWritable
      else pagePresent ||| pageUser).toNat = 5 + 2 * w.toNat := by decide
  unfold leafEntry leafFlags
  dsimp only
  split
  · next hx => rw [hnx _ (by rw [hflags]; cases writable <;> decide), hflags, hx]; rfl
  · next hx =>
    rw [Bool.not_eq_true] at hx
    rw [hlow _ (by rw [hflags]; cases writable <;> decide), hflags, hx]
    rfl

theorem leafEntry_address :
    leafEntry nxEnabled physical writable executable &&& pageAddressMask = physical := by
  have h1 := h.1
  have h2 := h.2
  rw [← UInt64.toNat_inj, toNat_and_field _ _ 12 40 (by decide), leafEntry_toNat _ _ _ h]
  cases writable <;> cases executable <;> cases nxEnabled <;> simp <;> omega

theorem leafEntry_writable :
    leafEntry nxEnabled physical writable executable &&& pageWritable ≠ 0 ↔ writable = true := by
  have h1 := h.1
  rw [and_bit_ne_zero _ _ 1 (by decide), leafEntry_toNat _ _ _ h]
  cases writable <;> cases executable <;> cases nxEnabled <;> simp <;> omega

theorem leafEntry_nx :
    leafEntry nxEnabled physical writable executable &&& pageNx ≠ 0 ↔
      executable = false ∧ nxEnabled = true := by
  have h2 := h.2
  rw [and_bit_ne_zero _ _ 63 (by decide), leafEntry_toNat _ _ _ h]
  cases writable <;> cases executable <;> cases nxEnabled <;> simp <;> omega

/-- What a translation through a leaf yields: the page plus the offset, and its rights. -/
theorem leafEntry_translation (address : UInt64) :
    ((leafEntry nxEnabled physical writable executable &&& pageAddressMask) |||
        (address &&& 4095)).toNat = physical.toNat + address.toNat % 4096 ∧
      (leafEntry nxEnabled physical writable executable &&& ~~~pageAddressMask &&&
        pageWritable ≠ 0 ↔
        writable = true) ∧
      (leafEntry nxEnabled physical writable executable &&& ~~~pageAddressMask &&& pageNx ≠ 0 ↔
        executable = false ∧ nxEnabled = true) := by
  have hoffset : (address &&& 4095).toNat = address.toNat % 4096 :=
    toNat_and_low address 4095 12 rfl
  refine ⟨?_, ?_, ?_⟩
  · rw [leafEntry_address _ _ _ h, toNat_or_of_lt _ _ 12 h.1 (by rw [hoffset]; omega), hoffset]
  · rw [UInt64.and_assoc, show ~~~pageAddressMask &&& pageWritable = pageWritable by decide]
    exact leafEntry_writable _ _ _ h
  · rw [UInt64.and_assoc, show ~~~pageAddressMask &&& pageNx = pageNx by decide]
    exact leafEntry_nx _ _ _ h

end Leaf

/-- Mapping a page adds it to the map, or leaves the map as it is. -/
theorem pagingUserMapPage_spec {outside : Nat → UInt64 → Prop} {map : UserMap} (hok : PmmOk s.pmm)
    (h : RootedTree outside s.mem space tables map) (hheld : Held s.pmm space.frames)
    (address physicalAddress : UInt64) (writable executable : Bool) :
    ∃ s' space' done, pagingUserMapPage s space address physicalAddress writable executable =
        (s', space', done) ∧ Grows s space s' space' ∧
      ((done = true ∧ MapArgs address physicalAddress ∧ map (vpnOf address) = none ∧
          RepresentsWith outside s'.mem space' (update map (vpnOf address)
            (some (leafEntry space.nxEnabled physicalAddress writable executable)))) ∨
        (done = false ∧ RepresentsWith outside s'.mem space' map)) := by
  by_cases hargs : MapArgs address physicalAddress
  case neg =>
    refine ⟨s, space, false, ?_, Grows.refl hok space, Or.inr ⟨rfl, tables, h⟩⟩
    unfold pagingUserMapPage
    rw [if_pos]
    by_contra hc
    exact hargs ((mapArgs_iff h.root_ne h.base _ _).mp hc)
  case pos =>
    have hguard := (mapArgs_iff h.root_ne h.base address physicalAddress).mpr hargs
    obtain ⟨hpath, hlast⟩ := tableIndex_vpn address
    have hwin : tableIndex address 39 = 1 := by
      have h1 := hargs.low
      have h2 := hargs.high
      rw [tableIndex_eq _ 39 (by decide)]
      show address.toNat / 2 ^ 39 % 512 = 1
      omega
    unfold pagingUserMapPage
    rw [if_neg hguard]
    rcases descend_spec hok h hheld h.root (by simp) (tableIndex_lt address 39)
        (Or.inr hwin) false with
      heq1 | ⟨s1, space1, pdpt, tables1, heq1, hg1, ht1, hc1⟩
    · rw [heq1]
      exact ⟨s, space, false, rfl, Grows.refl hok space, Or.inr ⟨rfl, tables, h⟩⟩
    · rw [heq1]
      dsimp only
      have hheld1 : Held s1.pmm space1.frames := by
        simpa using hg1.held [] (by simpa using hheld)
      rcases descend_spec hg1.pmm_ok ht1 hheld1 hc1 (by simp) (tableIndex_lt address 30)
          (Or.inl (by simp)) true with
        heq2 | ⟨s2, space2, pd, tables2, heq2, hg2, ht2, hc2⟩
      · rw [heq2]
        exact ⟨s1, space1, false, rfl, hg1, Or.inr ⟨rfl, tables1, ht1⟩⟩
      · rw [heq2]
        dsimp only
        have hheld2 : Held s2.pmm space2.frames := by
          simpa using hg2.held [] (by simpa using hheld1)
        rcases descend_spec hg2.pmm_ok ht2 hheld2 hc2 (by simp) (tableIndex_lt address 21)
            (Or.inl (by simp)) true with
          heq3 | ⟨s3, space3, pt, tables3, heq3, hg3, ht3, hc3⟩
        · rw [heq3]
          exact ⟨s2, space2, false, rfl, hg1.trans hg2, Or.inr ⟨rfl, tables2, ht2⟩⟩
        · rw [heq3]
          dsimp only
          have hg := (hg1.trans hg2).trans hg3
          have hpt : tables3 (tablePath (vpnOf address)) = some pt := by
            rw [← hpath]
            exact hc3
          have hleaf := ht3.leaf _ pt (vpnOf_lt address) hpt
          rw [← hlast] at hleaf
          cases hm : map (vpnOf address) with
          | some leaf =>
            rw [hm] at hleaf
            rw [hleaf.1, if_pos hleaf.2.1]
            exact ⟨s3, space3, false, rfl, hg, Or.inr ⟨rfl, tables3, ht3⟩⟩
          | none =>
            rw [hm] at hleaf
            have habsent : entryAt s3.mem pt (tableIndex address 12) &&& pagePresent = 0 :=
              hleaf
            rw [if_neg (not_not.mpr habsent)]
            obtain ⟨hp, hu⟩ := leafEntry_present space.nxEnabled physicalAddress writable executable
            have htree := ht3.set_leaf (vpnOf_lt address) hpt hp hu
            refine ⟨_, space3, true, rfl, ?_, Or.inl ⟨rfl, hargs, rfl, tables3, ?_⟩⟩
            · refine { hg with mem := hg.mem.trans ?_ (List.Subset.refl _) }
              refine (setEntry_sameOutside _ (ht3.pageAddress hpt).1
                (tableIndex_lt address 12) _).mono ?_
              intro f hf
              rw [List.mem_singleton] at hf
              rw [hf]
              exact ht3.frame_mem hpt
            · rw [hlast, hg.nx_eq]
              exact htree

end ArgusOs.Memory
