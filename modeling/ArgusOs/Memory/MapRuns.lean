/-
  A user space over its whole life is the log of its successful `paging_user_map_page` calls.

  `MapTrace` has a space created from a kernel root, any calls with what they returned, and in
  between whatever the rest of the kernel does: other memory changes, other pages are taken
  and given back, while the tables of the space stay held and are not written. The kernel root
  may hold anything in its other entries; creation fails unless the user window's is absent.
-/
import ArgusOs.Memory.Access

namespace ArgusOs.Memory

open Lib Function

/-- A call and what it returned. -/
abbrev MapLog := List (MapCall × Bool)

/-- A space made from the kernel root, whose entries were `copied` then, with the calls made
    for it so far. -/
inductive MapTrace (kernel : PagingInfo) (copied : Nat → UInt64) :
    Phys → UserSpace → MapLog → Prop where
  | create {s s' : Phys} {space : UserSpace} {frames : List Nat} (hok : PmmOk s.pmm)
      (hpage : PageAddress kernel.rootTable) (hheld : Held s.pmm frames)
      (hroot : frameOf kernel.rootTable ∈ frames)
      (hcopied : ∀ index, index < 512 → entryAt s.mem kernel.rootTable index = copied index)
      (hcreate : pagingUserSpaceCreate s kernel .zero = (s', space, true)) :
      MapTrace kernel copied s' space []
  | call {s s' : Phys} {space space' : UserSpace} {log : MapLog} {done : Bool} (call : MapCall)
      (hbefore : MapTrace kernel copied s space log)
      (hphysical : call.physicalAddress.toNat < 2 ^ 52)
      (hcall : pagingUserMapPage s space call.virtualAddress call.physicalAddress call.writable
        call.executable = (s', space', done)) :
      MapTrace kernel copied s' space' (log ++ [(call, done)])
  | other {s s' : Phys} {space : UserSpace} {log : MapLog}
      (hbefore : MapTrace kernel copied s space log) (hok : PmmOk s'.pmm)
      (hheld : Held s'.pmm space.frames)
      (hmem : ∀ a, a / argusPageSize ∈ space.frames → s'.mem a = s.mem a) :
      MapTrace kernel copied s' space log

/-- The leaf a call asks for. -/
def MapCall.leaf (nxEnabled : Bool) (call : MapCall) : UInt64 :=
  leafEntry nxEnabled call.physicalAddress call.writable call.executable

/-- The map the successful calls of a log describe. -/
def MapLog.map (nxEnabled : Bool) (log : MapLog) : UserMap := fun vpn =>
  log.findSome? fun entry =>
    if entry.2 = true ∧ vpnOf entry.1.virtualAddress = vpn then some (entry.1.leaf nxEnabled)
    else none

theorem MapLog.map_failed (nxEnabled : Bool) (log : MapLog) (call : MapCall) :
    MapLog.map nxEnabled (log ++ [(call, false)]) = MapLog.map nxEnabled log := by
  funext vpn
  simp [MapLog.map, List.findSome?_append]

variable {nxEnabled : Bool} {log : MapLog}

theorem MapLog.map_done {call : MapCall}
    (hfree : MapLog.map nxEnabled log (vpnOf call.virtualAddress) = none) :
    MapLog.map nxEnabled (log ++ [(call, true)]) =
      update (MapLog.map nxEnabled log) (vpnOf call.virtualAddress)
        (some (call.leaf nxEnabled)) := by
  funext vpn
  unfold MapLog.map at hfree ⊢
  rw [List.findSome?_append]
  by_cases hvpn : vpn = vpnOf call.virtualAddress
  · subst hvpn
    rw [update_self, hfree]
    simp
  · rw [update_of_ne hvpn]
    simp [Ne.symm hvpn]

/-- A page is mapped exactly if a successful call asked for it. -/
theorem MapLog.map_eq_none_iff {vpn : Nat} :
    MapLog.map nxEnabled log vpn = none ↔
      ∀ call, (call, true) ∈ log → vpnOf call.virtualAddress ≠ vpn := by
  unfold MapLog.map
  rw [List.findSome?_eq_none_iff]
  constructor
  · intro h call hmem heq
    have := h (call, true) hmem
    rw [if_pos ⟨rfl, heq⟩] at this
    cases this
  · intro h entry hmem
    rw [if_neg]
    rintro ⟨hdone, heq⟩
    exact h entry.1 (by rw [← hdone]; exact hmem) heq

/-- Successful calls are for different pages. -/
def MapLog.Once (log : MapLog) : Prop :=
  log.Pairwise fun a b => a.2 = true → b.2 = true →
    vpnOf a.1.virtualAddress ≠ vpnOf b.1.virtualAddress

theorem MapLog.Once.map_eq (h : MapLog.Once log) {call : MapCall} (hmem : (call, true) ∈ log) :
    MapLog.map nxEnabled log (vpnOf call.virtualAddress) = some (call.leaf nxEnabled) := by
  induction log with
  | nil => cases hmem
  | cons entry log ih =>
    have h' := List.pairwise_cons.mp h
    unfold MapLog.map
    rw [List.findSome?_cons]
    rcases List.mem_cons.mp hmem with rfl | hmem
    · rw [if_pos ⟨rfl, rfl⟩]
    · rw [if_neg]
      · exact ih h'.2 hmem
      · rintro ⟨hdone, heq⟩
        exact h'.1 _ hmem hdone rfl heq

/-- The entry of the kernel root is still the one copied. -/
def CopiedFrom (copied : Nat → UInt64) (index : Nat) (entry : UInt64) : Prop :=
  entry = copied index

/-- What holds of a space and the log of its calls. -/
structure MapTraceInv (kernel : PagingInfo) (copied : Nat → UInt64) (s : Phys) (space : UserSpace)
    (log : MapLog) : Prop where
  pmm_ok : PmmOk s.pmm
  held : Held s.pmm space.frames
  nx : space.nxEnabled = kernel.nxEnabled
  represents : RepresentsWith (CopiedFrom copied) s.mem space
    (MapLog.map kernel.nxEnabled log)
  once : MapLog.Once log
  args : ∀ call, (call, true) ∈ log → MapArgs call.virtualAddress call.physicalAddress ∧
    call.physicalAddress.toNat < 2 ^ 52

section Inv

variable {kernel : PagingInfo} {copied : Nat → UInt64} {s s' : Phys} {space space' : UserSpace}
  {log : MapLog}

theorem MapTraceInv.call (h : MapTraceInv kernel copied s space log) {call : MapCall} {done : Bool}
    (hphysical : call.physicalAddress.toNat < 2 ^ 52)
    (hcall : pagingUserMapPage s space call.virtualAddress call.physicalAddress call.writable
      call.executable = (s', space', done)) :
    MapTraceInv kernel copied s' space' (log ++ [(call, done)]) := by
  obtain ⟨tables, htree⟩ := h.represents
  obtain ⟨s₁, space₁, done₁, heq, hgrows, hout⟩ := pagingUserMapPage_spec h.pmm_ok htree h.held
    call.virtualAddress call.physicalAddress call.writable call.executable
  obtain ⟨rfl, rfl, rfl⟩ : s₁ = s' ∧ space₁ = space' ∧ done₁ = done := by
    rw [heq] at hcall
    simpa using hcall
  have hheld : Held s₁.pmm space₁.frames := by
    simpa using hgrows.held [] (by simpa using h.held)
  have hnx : space₁.nxEnabled = kernel.nxEnabled := hgrows.nx_eq.trans h.nx
  rcases hout with ⟨rfl, hargs, hfree, hrep⟩ | ⟨rfl, hrep⟩
  · refine ⟨hgrows.pmm_ok, hheld, hnx, ?_, ?_, ?_⟩
    · rw [MapLog.map_done hfree]
      rw [h.nx] at hrep
      exact hrep
    · refine List.pairwise_append.mpr ⟨h.once, List.pairwise_singleton _ _, ?_⟩
      intro entry hentry last hlast hdone _
      rw [List.mem_singleton.mp hlast]
      refine MapLog.map_eq_none_iff.mp hfree entry.1 ?_
      rw [← hdone]
      exact hentry
    · intro other hother
      rcases List.mem_append.mp hother with hother | hother
      · exact h.args other hother
      · rw [List.mem_singleton, Prod.mk.injEq] at hother
        rw [hother.1]
        exact ⟨hargs, hphysical⟩
  · refine ⟨hgrows.pmm_ok, hheld, hnx, ?_, ?_, ?_⟩
    · rw [MapLog.map_failed]
      exact hrep
    · refine List.pairwise_append.mpr ⟨h.once, List.pairwise_singleton _ _, ?_⟩
      intro entry _ last hlast _ hdone
      rw [List.mem_singleton.mp hlast] at hdone
      cases hdone
    · intro other hother
      rcases List.mem_append.mp hother with hother | hother
      · exact h.args other hother
      · simp at hother

theorem MapTrace.inv (h : MapTrace kernel copied s space log) :
    MapTraceInv kernel copied s space log := by
  induction h with
  | create hok hpage hheld hroot hcopied hcreate =>
    obtain ⟨s₁, space₁, done, heq, hex, hout⟩ := @pagingUserSpaceCreate_copies
      (CopiedFrom copied) _ hok _ hpage (fun index hi _ => hcopied index hi) _ hheld hroot
    rw [heq, Prod.mk.injEq, Prod.mk.injEq] at hcreate
    obtain ⟨rfl, rfl, rfl⟩ := hcreate
    rcases hout with ⟨-, hrep, hnx, -⟩ | ⟨hfalse, -⟩
    · exact ⟨hex.pmm_ok, (hex.held _ hheld).left, hnx, hrep, List.Pairwise.nil,
        fun _ hmem => by cases hmem⟩
    · cases hfalse
  | call call _ hphysical hcall ih => exact ih.call hphysical hcall
  | other _ hok hheld hmem ih =>
    obtain ⟨tables, htree⟩ := ih.represents
    exact ⟨hok, hheld, ih.nx, ⟨tables, htree.frame hmem⟩, ih.once, ih.args⟩

/-- An address of the user window. -/
def InUserWindow (virtualAddress : UInt64) : Prop :=
  2 ^ 39 ≤ virtualAddress.toNat ∧ virtualAddress.toNat < 2 ^ 40

instance (virtualAddress : UInt64) : Decidable (InUserWindow virtualAddress) :=
  inferInstanceAs (Decidable (_ ∧ _))

variable {virtualAddress : UInt64}

theorem InUserWindow.rootIndex (h : InUserWindow virtualAddress) :
    tableIndex virtualAddress 39 = 1 := by
  obtain ⟨hlow, hhigh⟩ := h
  rw [tableIndex_eq _ 39 (by decide), show (39 : UInt64).toNat = 39 from rfl]
  omega

/-- In the window a page number is all of the address but the offset. -/
theorem InUserWindow.vpn_eq (h : InUserWindow virtualAddress) :
    vpnOf virtualAddress = virtualAddress.toNat / 4096 := by
  obtain ⟨hlow, hhigh⟩ := h
  unfold vpnOf
  omega

theorem MapTraceInv.translate (h : MapTraceInv kernel copied s space log)
    (hwin : InUserWindow virtualAddress) :
    pagingUserTranslate s.mem space virtualAddress =
      (MapLog.map kernel.nxEnabled log (vpnOf virtualAddress)).map fun leaf =>
        ((leaf &&& pageAddressMask) ||| (virtualAddress &&& 4095),
          leaf &&& ~~~pageAddressMask) := by
  obtain ⟨tables, htree⟩ := h.represents
  exact htree.translate hwin.rootIndex

/-- The translation of an address in a page that a successful call asked for. -/
structure TranslatesTo (kernel : PagingInfo) (call : MapCall) (virtualAddress : UInt64)
    (result : Option (UInt64 × UInt64)) : Prop where
  address : result.map (fun r => r.1.toNat) =
    some (call.physicalAddress.toNat + virtualAddress.toNat % 4096)
  writable : result.map (fun r => decide (r.2 &&& pageWritable ≠ 0)) = some call.writable
  nx : result.map (fun r => decide (r.2 &&& pageNx ≠ 0)) =
    some (!call.executable && kernel.nxEnabled)

theorem MapCall.translatesTo {call : MapCall} (hpage : PageAddress call.physicalAddress)
    (kernel : PagingInfo) (address : UInt64) :
    TranslatesTo kernel call address
      (some ((call.leaf kernel.nxEnabled &&& pageAddressMask) ||| (address &&& 4095),
        call.leaf kernel.nxEnabled &&& ~~~pageAddressMask)) := by
  obtain ⟨haddress, hwritable, hnx⟩ :=
    leafEntry_translation kernel.nxEnabled call.writable call.executable hpage address
  refine ⟨?_, ?_, ?_⟩
  · rw [Option.map_some, Option.some.injEq]
    exact haddress
  · rw [Option.map_some, Option.some.injEq, Bool.eq_iff_iff, decide_eq_true_eq]
    exact hwritable
  · rw [Option.map_some, Option.some.injEq, Bool.eq_iff_iff, decide_eq_true_eq, Bool.and_eq_true,
      Bool.not_eq_true']
    exact hnx

end Inv

/-- Over its whole life a user space translates exactly the pages its successful calls asked
    for, with the frames and rights they asked for; a page is asked for successfully once, a
    failed call changes no translation, and the kernel's entries stay as they were copied. -/
theorem user_space_refines_map (kernel : PagingInfo) (copied : Nat → UInt64) (s : Phys)
    (space : UserSpace) (log : MapLog) (h : MapTrace kernel copied s space log) :
    (∀ virtualAddress, InUserWindow virtualAddress →
      (pagingUserTranslate s.mem space virtualAddress ≠ none ↔
        ∃ call, (call, true) ∈ log ∧
          call.virtualAddress.toNat / 4096 = virtualAddress.toNat / 4096) ∧
      ∀ call, (call, true) ∈ log →
        call.virtualAddress.toNat / 4096 = virtualAddress.toNat / 4096 →
        TranslatesTo kernel call virtualAddress
          (pagingUserTranslate s.mem space virtualAddress)) ∧
    (log.Pairwise fun a b => a.2 = true → b.2 = true →
      a.1.virtualAddress.toNat / 4096 ≠ b.1.virtualAddress.toNat / 4096) ∧
    (∀ (call : MapCall) (s' : Phys) (space' : UserSpace), call.physicalAddress.toNat < 2 ^ 52 →
      pagingUserMapPage s space call.virtualAddress call.physicalAddress call.writable
        call.executable = (s', space', false) →
      ∀ virtualAddress, InUserWindow virtualAddress →
        pagingUserTranslate s'.mem space' virtualAddress =
          pagingUserTranslate s.mem space virtualAddress) ∧
    ∀ index, index < 512 → index ≠ 1 → entryAt s.mem space.rootTable index = copied index := by
  have hinv := h.inv
  have hpages : ∀ call, (call, true) ∈ log →
      vpnOf call.virtualAddress = call.virtualAddress.toNat / 4096 := fun call hmem =>
    InUserWindow.vpn_eq ⟨(hinv.args call hmem).1.low, (hinv.args call hmem).1.high⟩
  refine ⟨?_, ?_, ?_, ?_⟩
  · intro virtualAddress hwin
    rw [hinv.translate hwin]
    constructor
    · rw [Ne, Option.map_eq_none_iff, MapLog.map_eq_none_iff, hwin.vpn_eq]
      push Not
      constructor
      · intro ⟨call, hmem, heq⟩
        exact ⟨call, hmem, by rw [← hpages call hmem]; exact heq⟩
      · intro ⟨call, hmem, heq⟩
        exact ⟨call, hmem, by rw [hpages call hmem]; exact heq⟩
    · intro call hmem heq
      rw [hwin.vpn_eq, ← heq, ← hpages call hmem, hinv.once.map_eq hmem]
      obtain ⟨hargs, hphysical⟩ := hinv.args call hmem
      exact MapCall.translatesTo ⟨hargs.physical_aligned, hphysical⟩ kernel virtualAddress
  · refine List.Pairwise.imp_of_mem ?_ hinv.once
    intro a b ha hb hab hadone hbdone
    rw [← hpages a.1 (by rw [← hadone]; exact ha), ← hpages b.1 (by rw [← hbdone]; exact hb)]
    exact hab hadone hbdone
  · intro call s' space' hphysical hcall virtualAddress hwin
    rw [(hinv.call hphysical hcall).translate hwin, hinv.translate hwin, MapLog.map_failed]
  · obtain ⟨tables, htree⟩ := hinv.represents
    exact htree.kernel

/-- The sample machine after it made a user space, and after it mapped one code page there. -/
def sampleCreated : Phys × UserSpace × Bool :=
  pagingUserSpaceCreate sampleMachine sampleKernel .zero

def sampleMapped : Phys × UserSpace × Bool :=
  pagingUserMapPage sampleCreated.1 sampleCreated.2.1 0x8000001000 0x300000 false true

theorem eq_of_done {r : Phys × UserSpace × Bool} (h : r.2.2 = true) : r = (r.1, r.2.1, true) := by
  rw [← h]

theorem sampleMapped_trace : MapTrace sampleKernel (fun _ => 0) sampleMapped.1 sampleMapped.2.1
    [(⟨0x8000001000, 0x300000, false, true⟩, true)] := by
  have hcreated : sampleCreated.2.2 = true := by decide +kernel
  have hmapped : sampleMapped.2.2 = true := by decide +kernel
  have hempty : MapTrace sampleKernel (fun _ => 0) sampleCreated.1 sampleCreated.2.1 [] := by
    refine MapTrace.create sampleMachine_pmmOk sampleMachine_kernelRoot.page sampleMachine_held
      (by decide) (fun index _ => load64_zero fun _ _ _ => rfl) ?_
    change sampleCreated = _
    exact eq_of_done hcreated
  refine MapTrace.call ⟨0x8000001000, 0x300000, false, true⟩ hempty (by decide) ?_
  change sampleMapped = _
  exact eq_of_done hmapped

theorem user_space_refines_map_code_page :
    TranslatesTo sampleKernel ⟨0x8000001000, 0x300000, false, true⟩ 0x8000001234
        (pagingUserTranslate sampleMapped.1.mem sampleMapped.2.1 0x8000001234) ∧
      ¬ (pagingUserTranslate sampleMapped.1.mem sampleMapped.2.1 0x8000002000 ≠ none) := by
  have h := user_space_refines_map _ _ _ _ _ sampleMapped_trace
  refine ⟨(h.1 0x8000001234 (by decide)).2 _ (List.mem_singleton_self _) (by decide), ?_⟩
  rw [(h.1 0x8000002000 (by decide)).1]
  intro ⟨call, hmem, heq⟩
  rw [List.mem_singleton, Prod.mk.injEq] at hmem
  rw [hmem.1] at heq
  exact absurd heq (by decide)

end ArgusOs.Memory
