/-
  Ownership of physical pages across a step.

  `Exchange s own s' own'` says that a step which owned the pages `own` before owns `own'`
  after: whatever other pages were held stay held and keep their contents, and the free
  count moved by exactly the difference. It composes, and it leaves room for any frame, so
  the layers above state each function by what it owns before and after and never look at
  the bitmaps.
-/
import ArgusOs.Memory.UserMap

namespace ArgusOs.Memory

open Lib

structure Exchange (s : Phys) (own : List Nat) (s' : Phys) (own' : List Nat) : Prop where
  pmm_ok : PmmOk s'.pmm
  page_count : s'.pmm.pageCount = s.pmm.pageCount
  free : s'.pmm.freeCount + own'.length = s.pmm.freeCount + own.length
  held : ∀ frames, Held s.pmm (own ++ frames) → Held s'.pmm (own' ++ frames)
  mem : ∀ frames, Held s.pmm (own ++ frames) →
    ∀ a, a / argusPageSize ∈ frames → s'.mem a = s.mem a

section Rules

variable {s s' s'' : Phys} {own own' own'' : List Nat}

theorem Exchange.refl (hok : PmmOk s.pmm) (own : List Nat) : Exchange s own s own where
  pmm_ok := hok
  page_count := rfl
  free := rfl
  held := fun _ h => h
  mem := fun _ _ _ _ => rfl

theorem Exchange.trans (h : Exchange s own s' own') (h' : Exchange s' own' s'' own'') :
    Exchange s own s'' own'' where
  pmm_ok := h'.pmm_ok
  page_count := h'.page_count.trans h.page_count
  free := by
    have h1 := h.free
    have h2 := h'.free
    omega
  held := fun frames hf => h'.held frames (h.held frames hf)
  mem := fun frames hf a ha => by rw [h'.mem frames (h.held frames hf) a ha, h.mem frames hf a ha]

theorem Exchange.perm (h : Exchange s own s' own') {own₁ own₁' : List Nat}
    (hp : own₁.Perm own) (hp' : own'.Perm own₁') : Exchange s own₁ s' own₁' where
  pmm_ok := h.pmm_ok
  page_count := h.page_count
  free := by
    rw [hp.length_eq, ← hp'.length_eq]
    exact h.free
  held := fun frames hf =>
    (h.held frames (hf.perm (hp.append_right frames))).perm (hp'.append_right frames)
  mem := fun frames hf => h.mem frames (hf.perm (hp.append_right frames))

theorem Exchange.held_own (h : Exchange s own s' own') (hheld : Held s.pmm own) :
    Held s'.pmm own' := by
  have := h.held []
  rw [List.append_nil, List.append_nil] at this
  exact this hheld

/-- Pages a step does not mention it still owns. -/
theorem Exchange.extend (h : Exchange s own s' own') (extra : List Nat) :
    Exchange s (own ++ extra) s' (own' ++ extra) where
  pmm_ok := h.pmm_ok
  page_count := h.page_count
  free := by
    have := h.free
    rw [List.length_append, List.length_append]
    omega
  held := fun frames hf => by
    rw [List.append_assoc] at hf ⊢
    exact h.held _ hf
  mem := fun frames hf a ha => by
    rw [List.append_assoc] at hf
    exact h.mem _ hf a (List.mem_append_right extra ha)

theorem Exchange.store {mem mem' : Mem} {pmm : Pmm} (hok : PmmOk pmm)
    (h : SameOutside own mem mem') : Exchange ⟨mem, pmm⟩ own ⟨mem', pmm⟩ own where
  pmm_ok := hok
  page_count := rfl
  free := rfl
  held := fun _ hf => hf
  mem := fun frames hf a ha => by
    apply h
    intro hm
    exact (List.nodup_append.mp hf.nodup).2.2 _ hm _ ha rfl

theorem Grows.exchange {space space' : UserSpace} (h : Grows s space s' space') :
    Exchange s space.frames s' space'.frames where
  pmm_ok := h.pmm_ok
  page_count := h.page_count
  free := by
    obtain ⟨new, hnew, hfree⟩ := h.tables
    unfold UserSpace.frames
    rw [hnew, List.length_map, List.length_map, List.length_append]
    omega
  held := h.held
  mem := fun frames hf a ha => by
    apply h.mem
    intro hm
    exact (List.nodup_append.mp (h.held frames hf).nodup).2.2 _ hm _ ha rfl

end Rules

/-! ## Allocation and release -/

variable {s : Phys}

theorem pmmAllocPages_exchange (hok : PmmOk s.pmm) (count : Nat) :
    (pmmAllocPages s.pmm count = (s.pmm, 0)) ∨
    ∃ start address pmm', pmmAllocPages s.pmm count = (pmm', address) ∧ address ≠ 0 ∧
      address.toNat = start * argusPageSize ∧ start + count ≤ 2 ^ 35 ∧
      Exchange s [] ⟨s.mem, pmm'⟩ (List.range' start count) := by
  rcases pmmAllocPages_spec hok count with
    h | ⟨start, address, pmm', h, haddr, hne, hle, hok', hcount, hfree, hheld⟩
  · exact Or.inl h
  · have hpages := hok.page_count
    refine Or.inr ⟨start, address, pmm', h, hne, haddr, by omega, ?_⟩
    exact
      { pmm_ok := hok', page_count := hcount
        free := by
          rw [List.length_range', List.length_nil]
          exact hfree
        held := hheld
        mem := fun _ _ _ _ => rfl }

theorem pmmAllocPage_exchange (hok : PmmOk s.pmm) :
    (pmmAllocPage s.pmm = (s.pmm, 0)) ∨
    ∃ address pmm', pmmAllocPage s.pmm = (pmm', address) ∧ address ≠ 0 ∧ PageAddress address ∧
      Exchange s [] ⟨s.mem, pmm'⟩ [frameOf address] := by
  rcases pmmAllocPage_spec hok with h | ⟨address, pmm', h, hne, hpage, hok', hcount, hfree, hheld⟩
  · exact Or.inl h
  · exact Or.inr ⟨address, pmm', h, hne, hpage,
      { pmm_ok := hok', page_count := hcount, free := hfree, held := hheld
        mem := fun _ _ _ _ => rfl }⟩

variable {rest : List Nat}

theorem pmmReleasePages_exchange (hok : PmmOk s.pmm) {start count : Nat} {address : UInt64}
    (haddr : address.toNat = start * argusPageSize) (hpos : count ≠ 0)
    (h : Held s.pmm (List.range' start count ++ rest)) :
    Exchange s (List.range' start count) ⟨s.mem, (pmmReleasePages s.pmm address count).1⟩ [] := by
  have hrelease : ∀ frames, Held s.pmm (List.range' start count ++ frames) →
      Held (pmmReleasePages s.pmm address count).1 frames := by
    intro frames hf
    obtain ⟨pmm', heq, -, -, -, hf'⟩ := pmmReleasePages_held hok haddr hpos hf
    rw [heq]
    exact hf'
  obtain ⟨pmm', heq, hok', hcount, hfree, -⟩ := pmmReleasePages_held hok haddr hpos h
  exact
    { pmm_ok := by rw [heq]; exact hok'
      page_count := by rw [heq]; exact hcount
      free := by
        rw [heq, List.length_range']
        exact hfree
      held := hrelease
      mem := fun _ _ _ _ => rfl }

theorem pmmFreePage_exchange (hok : PmmOk s.pmm) {address : UInt64} (hpage : PageAddress address)
    (h : Held s.pmm (frameOf address :: rest)) :
    Exchange s [frameOf address] ⟨s.mem, (pmmFreePage s.pmm address).1⟩ [] := by
  have hpos := hpage.1
  have haddr : address.toNat = frameOf address * argusPageSize := by
    unfold frameOf argusPageSize
    omega
  exact pmmReleasePages_exchange hok haddr Nat.one_ne_zero h

theorem freePages_exchange (addresses : List UInt64) (hpages : ∀ a ∈ addresses, PageAddress a)
    (hok : PmmOk s.pmm) (h : Held s.pmm (addresses.map frameOf ++ rest)) :
    Exchange s (addresses.map frameOf)
      ⟨s.mem, addresses.foldl (fun pmm address => (pmmFreePage pmm address).1) s.pmm⟩ [] := by
  induction addresses generalizing s with
  | nil => exact Exchange.refl hok []
  | cons address addresses ih =>
    have hstep := (pmmFreePage_exchange hok (hpages address List.mem_cons_self) h).extend
      (addresses.map frameOf)
    have hrest := ih (fun a ha => hpages a (List.mem_cons_of_mem address ha)) hstep.pmm_ok
      (hstep.held rest h)
    exact hstep.trans hrest

theorem pagingUserSpaceDestroy_exchange (hok : PmmOk s.pmm) {space : UserSpace}
    (hpages : ∀ t ∈ space.tablePages, PageAddress t) (h : Held s.pmm (space.frames ++ rest)) :
    Exchange s space.frames (pagingUserSpaceDestroy s space).1 [] ∧
      (pagingUserSpaceDestroy s space).2 = .zero := by
  have hperm : (space.tablePages.reverse.map frameOf).Perm space.frames :=
    (List.reverse_perm _).map frameOf
  have hrev := freePages_exchange space.tablePages.reverse
    (fun a ha => hpages a (List.mem_reverse.mp ha)) hok (h.perm (hperm.symm.append_right rest))
  exact ⟨hrev.perm hperm.symm (List.Perm.refl _), rfl⟩

end ArgusOs.Memory
