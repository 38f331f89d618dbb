/-
  System calls stay within their caller.

  `syscall_confined` is about every system call a process can make in a reachable state, with
  any registers: it changes the record of no other process and no endpoint, the caller's
  capabilities stay as they were, and a call that works on an object is refused unless the
  handle it is given names the caller's own. No process can send a message or open a
  connection, since no table has a capability for it.

  `dispatch_returns` says when a dispatch comes back: when the pointers the process passes are
  below bit 48 and its interrupts have handlers.
-/
import ArgusOs.Runtime.AppStart

namespace ArgusOs.Runtime

open Lib Memory Capability Ipc Elf

/-! ## Own objects -/

/-- The object of each type that belongs to the process. -/
def Process.ownObject (p : Process) (type : UInt32) : UInt64 :=
  if type = capabilityClock then 0
  else if type = capabilityInput then p.appId.toUInt64
  else if type = capabilitySurface then p.surfacePhysical
  else p.ipcEndpoint

variable {p : Process}

theorem grantsOf_own {g : GrantSpec} (h : g ∈ grantsOf p) : g.2.2 = p.ownObject g.1 := by
  unfold grantsOf at h
  split at h
  · cases h
  · simp only [appGrants, List.mem_cons, List.not_mem_nil, or_false] at h
    rcases h with rfl | rfl | rfl | rfl
    · rfl
    · rfl
    · rfl
    · rfl

/-- Whatever handle resolves in the table of a process, it names an object of its own. -/
theorem Authority.own (h : Authority p) {handle object : UInt64} {type : UInt32} {right : UInt16}
    (htype : type ≠ 0) (hres : capabilityResolve p.capabilities handle type right = some object) :
    object = p.ownObject type := by
  obtain ⟨slot, -, hslot, -, hobject⟩ := (capabilityResolve_eq_some (by
    rw [h.principal]
    exact h.pid) h.fits handle type right object).mp hres
  have hne : (p.capabilities.entries slot).type ≠ 0 := by
    intro hc
    rw [hc] at hslot
    exact htype hslot.symm
  obtain ⟨g, hg, hgtype, -, hgobject⟩ := h.entries slot hne
  rw [← hobject, ← hslot, hgobject, hgtype]
  exact grantsOf_own hg

theorem Authority.capability (h : Authority p) {handle expected object : UInt64} {type : UInt32}
    {right : UInt16} (htype : type ≠ 0)
    (hcap : processCapability p handle type right expected = some object) :
    capabilityResolve p.capabilities handle type right = some (p.ownObject type) := by
  unfold processCapability at hcap
  cases hres : capabilityResolve p.capabilities handle type right with
  | none =>
    rw [hres] at hcap
    cases hcap
  | some resolved => rw [h.own htype hres]

/-! ## Calls that take a handle -/

structure HandleUse where
  handle : UInt64
  type : UInt32
  right : UInt16

/-- The handle a call works on, with what it has to be good for. -/
def handleUse (c : UserContext) : Option HandleUse :=
  if c.rax = syscallClockTicks then some ⟨c.rdi, capabilityClock, capRightRead⟩
  else if c.rax = syscallInputPoll then some ⟨c.rdi, capabilityInput, capRightRead⟩
  else if c.rax = syscallAppPresent then some ⟨c.rdx, capabilitySurface, capRightPresent⟩
  else if c.rax = syscallEventWait then some ⟨c.rdi, capabilityInput, capRightWait⟩
  else if c.rax = syscallIpcReceive then some ⟨c.rdi, capabilityIpc, capRightReceive⟩
  else none

/-- The process holds an object of its own behind the handle. -/
def Process.Entitled (p : Process) (use : HandleUse) : Prop :=
  capabilityResolve p.capabilities use.handle use.type use.right = some (p.ownObject use.type)

section Calls

variable {k : Kernel} {i : Fin 8} {c : UserContext} (h : Authority (k.processes i))

include h

theorem sysClockTicks_entitled : sysClockTicks k i c = refuse k c ∨
    (k.processes i).Entitled ⟨c.rdi, capabilityClock, capRightRead⟩ := by
  unfold sysClockTicks
  split
  · next hcap =>
    obtain ⟨object, hobject⟩ := Option.isSome_iff_exists.mp hcap.2
    exact Or.inr (h.capability (show capabilityClock ≠ 0 by decide) hobject)
  · exact Or.inl rfl

theorem sysInputPoll_entitled : sysInputPoll k i c = refuse k c ∨
    (k.processes i).Entitled ⟨c.rdi, capabilityInput, capRightRead⟩ := by
  unfold sysInputPoll
  split
  · next hcap =>
    obtain ⟨object, hobject⟩ := Option.isSome_iff_exists.mp hcap.2
    exact Or.inr (h.capability (show capabilityInput ≠ 0 by decide) hobject)
  · exact Or.inl rfl

theorem sysAppPresent_entitled : sysAppPresent k i c = refuse k c ∨
    (k.processes i).Entitled ⟨c.rdx, capabilitySurface, capRightPresent⟩ := by
  unfold sysAppPresent presentWith
  split
  · exact Or.inl rfl
  · next hcap =>
    obtain ⟨-, hcap, -⟩ := not_or.mp hcap |>.imp_right not_or.mp
    rw [Bool.not_eq_true, Option.isNone_eq_false_iff, Option.isSome_iff_exists] at hcap
    obtain ⟨object, hobject⟩ := hcap
    exact Or.inr (h.capability (show capabilitySurface ≠ 0 by decide) hobject)

theorem sysEventWait_entitled : sysEventWait k i c = refuse k c ∨
    (k.processes i).Entitled ⟨c.rdi, capabilityInput, capRightWait⟩ := by
  unfold sysEventWait
  split
  · exact Or.inl rfl
  · next hcap =>
    have hcap := (not_or.mp hcap).2
    rw [Bool.not_eq_true, Option.isNone_eq_false_iff, Option.isSome_iff_exists] at hcap
    obtain ⟨object, hobject⟩ := hcap
    exact Or.inr (h.capability (show capabilityInput ≠ 0 by decide) hobject)

theorem sysIpcReceive_entitled : sysIpcReceive k i c = refuse k c ∨
    (k.processes i).Entitled ⟨c.rdi, capabilityIpc, capRightReceive⟩ := by
  unfold sysIpcReceive
  split
  · exact Or.inl rfl
  · next object hobject => exact Or.inr (h.capability (show capabilityIpc ≠ 0 by decide) hobject)

theorem syscallSwitch_entitled {use : HandleUse} (huse : handleUse c = some use) :
    syscallSwitch k i c = refuse k c ∨ (k.processes i).Entitled use := by
  unfold handleUse at huse
  split at huse
  · next hrax =>
    cases huse
    rw [show syscallSwitch k i c = sysClockTicks k i c by simp only [syscallSwitch, hrax]; rfl]
    exact sysClockTicks_entitled h
  split at huse
  · next hrax =>
    cases huse
    rw [show syscallSwitch k i c = sysInputPoll k i c by simp only [syscallSwitch, hrax]; rfl]
    exact sysInputPoll_entitled h
  split at huse
  · next hrax =>
    cases huse
    rw [show syscallSwitch k i c = sysAppPresent k i c by simp only [syscallSwitch, hrax]; rfl]
    exact sysAppPresent_entitled h
  split at huse
  · next hrax =>
    cases huse
    rw [show syscallSwitch k i c = sysEventWait k i c by simp only [syscallSwitch, hrax]; rfl]
    exact sysEventWait_entitled h
  split at huse
  · next hrax =>
    cases huse
    rw [show syscallSwitch k i c = sysIpcReceive k i c by simp only [syscallSwitch, hrax]; rfl]
    exact sysIpcReceive_entitled h
  · cases huse

/-- Sending and connecting are always refused. -/
theorem syscallSwitch_denied (hrax : c.rax = syscallIpcSend ∨ c.rax = syscallAnonymousConnect) :
    ∃ k', syscallSwitch k i c = .ok (k', { c with rax := wordMax }, .ret) := by
  rcases hrax with hrax | hrax
  · refine ⟨k, ?_⟩
    rw [show syscallSwitch k i c = sysIpcSend k i c by simp only [syscallSwitch, hrax]; rfl]
    unfold sysIpcSend
    rw [h.no_send]
    rfl
  · rw [show syscallSwitch k i c = sysAnonymousConnect k c by simp only [syscallSwitch, hrax]; rfl]
    exact ⟨_, rfl⟩

end Calls

/-! ## Confinement -/

/-- **Confinement.** A system call of the running process, in any reachable state and with any
    registers, leaves every other record, every endpoint and the caller's capabilities as they
    are; calls on clock, input, surface and endpoint are refused unless the handle resolves in
    the caller's table to its own object with the right; sending and connecting are refused
    always, and no table has a capability for them. -/
theorem syscall_confined (images : Images) (paging : PagingInfo) (frames : List Nat)
    (k₀ k : Kernel) (i : Fin 8) (c : UserContext) (hheld : KernelHeld k₀.phys paging frames)
    (h : Reachable images paging k₀ k) (hrun : k.running = some i) :
    (Ensures (syscallDispatch k c) fun e =>
      (∀ j, j ≠ i → e.1.processes j = k.processes j) ∧ e.1.ipc = k.ipc ∧
        (e.1.processes i).capabilities = (k.processes i).capabilities) ∧
    (∀ use, handleUse c = some use →
      syscallDispatch k c = refuse k.countSyscall c ∨ (k.processes i).Entitled use) ∧
    (c.rax = syscallIpcSend ∨ c.rax = syscallAnonymousConnect →
      ∃ k', syscallDispatch k c = .ok (k', { c with rax := wordMax }, .ret)) ∧
    ∀ j, (k.processes j).state ≠ .unused → ∀ slot : Fin 16,
      ((k.processes j).capabilities.entries slot).type ≠ 0 →
      ((k.processes j).capabilities.entries slot).rights &&& capRightSend = 0 ∧
        ((k.processes j).capabilities.entries slot).type.toUInt32 ≠ capabilityAnonymousStream ∧
        ((k.processes j).capabilities.entries slot).type.toUInt32 ≠ capabilityRawNetwork := by
  have hsound := h.sound hheld
  have hlive : (k.processes i).state ≠ .unused := by
    rw [(hsound.scheduled.running i).mpr (running_cases hrun).1]
    decide
  have hauth := hsound.wired.authority i hlive
  refine ⟨?_, ?_, ?_, fun j hj slot ht => (hsound.wired.authority j hj).confined ht⟩
  · refine (syscallDispatch_step hrun c).mono ?_
    intro e he
    have hipc : e.1.ipc = k.ipc := by
      cases he.effect (hsound.wired.quiet hlive) with
      | none _ hipc _ | store _ _ _ _ _ _ _ hipc _ => exact hipc
    exact ⟨he.others, hipc, he.moves.static.capabilities⟩
  · intro use huse
    rw [syscallDispatch_eq hrun]
    exact syscallSwitch_entitled (k := k.countSyscall) hauth huse
  · intro hrax
    rw [syscallDispatch_eq hrun]
    exact syscallSwitch_denied (k := k.countSyscall) hauth hrax

/-- An app that has started asks for a connection; it holds a capability, but none to send. -/
theorem syscall_confined_connect :
    ∃ k k' slot, Reachable presentingImages sampleKernel (.before sampleMachine) k ∧
      k.running = some (catalogSlot 2) ∧
      syscallDispatch k { UserContext.zero with rax := syscallAnonymousConnect } =
        .ok (k', { UserContext.zero with rax := wordMax }, .ret) ∧
      ((k.processes (catalogSlot 2)).capabilities.entries slot).type ≠ 0 ∧
      ((k.processes (catalogSlot 2)).capabilities.entries slot).rights &&& capRightSend = 0 := by
  obtain ⟨_, _, k, hreach, -, -, hrun, happ, -⟩ := sampleRuns_typed
  simp only [List.forall_mem_cons] at hreach
  have hsound := hreach.2.2.1.sound sampleMachine_kernelHeld
  obtain ⟨-, -, hdenied, hconfined⟩ := syscall_confined presentingImages sampleKernel [256] _ _ _
    { UserContext.zero with rax := syscallAnonymousConnect } sampleMachine_kernelHeld
    hreach.2.2.1 hrun
  have hlive : ((k.enter (catalogSlot 2)).processes (catalogSlot 2)).state ≠ .unused := by
    rw [enter_self]
    exact nofun
  obtain ⟨k', hk'⟩ := hdenied (Or.inr rfl)
  obtain ⟨slot, hslot, -⟩ := (hsound.wired.authority _ hlive).held
    (capabilityClock, capRightRead, 0) (by
      unfold grantsOf
      rw [enter_self, if_neg (show (k.processes (catalogSlot 2)).appId ≠ 0 by rw [happ]; decide)]
      exact List.mem_cons_self)
  exact ⟨_, k', slot, hreach.2.2.1, hrun, hk', hslot, (hconfined _ hlive slot hslot).1⟩

/-! ## Runs that come back -/

theorem readUser_ok {mem : Mem} {space : UserSpace} {address : UInt64} {n : Nat}
    (hall : ∀ i < n, (userAddress mem space (address + UInt64.ofNat i)).isSome = true) :
    ∃ bytes, readUser mem space address n = .ok bytes := by
  induction n generalizing address with
  | zero => exact ⟨[], rfl⟩
  | succ n ih =>
    obtain ⟨⟨physical, flags⟩, hfirst⟩ := Option.isSome_iff_exists.mp (hall 0 (Nat.succ_pos n))
    rw [show address + UInt64.ofNat 0 = address from UInt64.add_zero address] at hfirst
    obtain ⟨bytes, hrest⟩ := @ih (address + 1) fun i hi => by
      have hnext := hall (i + 1) (Nat.succ_lt_succ hi)
      rwa [UInt64.ofNat_add, UInt64.add_comm (UInt64.ofNat i), ← UInt64.add_assoc] at hnext
    refine ⟨mem physical.toNat :: bytes, ?_⟩
    rw [readUser, hfirst]
    dsimp only
    rw [hrest]
    rfl

/-- A range below bit 48 that passes the check can be read. -/
theorem Housing.read {kernel : PagingInfo} {phys : Phys} {address length : UInt64}
    (h : Housing kernel phys p) (hlow : address.toNat < 2 ^ 48)
    (hreadable : userRangeReadable phys.mem p.addressSpace address length = true) :
    ∃ bytes, readUser phys.mem p.addressSpace address length.toNat = .ok bytes := by
  obtain ⟨map, hmap⟩ := h.mapped
  obtain ⟨-, hwrap, hall⟩ := (userRange_eq_true _ address length).mp hreadable
  refine readUser_ok fun i hi => ?_
  obtain ⟨-, hwindow⟩ := hmap.rep.inWindow hlow hwrap hall i hi
  have hat : (address + UInt64.ofNat i).toNat = address.toNat + i := by
    rw [UInt64.toNat_add, UInt64.toNat_ofNat']
    omega
  -- which page it is decides whether an address translates
  have hpage := hall ((address.toNat + i) / 4096) (by omega) (by omega)
  rw [hmap.rep.translate, vpnOf_pageAddress (by omega), Option.isSome_map] at hpage
  unfold userAddress
  rw [if_neg (by omega), hmap.rep.translate, Option.isSome_map, vpnOf, hat]
  exact hpage

/-- The kernel can take the event: a pointer it reads from is below bit 48; an interrupt has a
    handler or is an exception of user code. -/
def UserEvent.Served (images : Images) : UserEvent → Prop
  | .store .. => True
  | .syscall c => c.rax = syscallWrite ∨ c.rax = syscallAppPresent → c.rdi.toNat < 2 ^ 48
  | .interrupt frame _ => frame.vector = apicSpuriousVector ∨
      (frame.vector < 256 ∧ images.registered frame.vector = true) ∨
      (frame.vector < 32 ∧ frame.cs &&& 3 = 3)

/-- The event makes the process give the processor back. -/
def UserEvent.Leaves : UserEvent → Prop
  | .syscall c => c.rax = syscallYield ∨ c.rax = syscallExit
  | _ => False

section Returns

variable {images : Images} {paging : PagingInfo} {k₀ k : Kernel} {i : Fin 8} {c : UserContext}

theorem syscallSwitch_returns (hhousing : Housing paging k.phys (k.processes i))
    (hquiet : Quiet k i)
    (hlow : c.rax = syscallWrite ∨ c.rax = syscallAppPresent → c.rdi.toNat < 2 ^ 48) :
    ∃ e, syscallSwitch k i c = .ok e := by
  unfold syscallSwitch
  refine exists_ok_ite (fun hwrite => exists_ok_ite (fun _ => ⟨_, rfl⟩) fun hgo => ?write) fun _ =>
    ?_
  case write =>
    rw [not_or, not_or, Bool.not_eq_false] at hgo
    obtain ⟨bytes, hbytes⟩ := hhousing.read (hlow (Or.inl hwrite)) hgo.2.2
    rw [hbytes]
    exact ⟨_, rfl⟩
  refine exists_ok_ite (fun _ => ⟨_, rfl⟩) fun _ => ?_
  refine exists_ok_ite (fun _ => ⟨_, rfl⟩) fun _ => ?_
  refine exists_ok_ite (fun _ => ⟨_, rfl⟩) fun _ => ?_
  refine exists_ok_ite (fun _ => exists_ok_ite (fun _ => ⟨_, rfl⟩) fun _ => ⟨_, rfl⟩) fun _ => ?_
  refine exists_ok_ite (fun _ => exists_ok_ite (fun _ => ⟨_, rfl⟩) fun _ => ⟨_, rfl⟩) fun _ => ?_
  refine exists_ok_ite (fun hpresent => exists_ok_ite (fun _ => ⟨_, rfl⟩) fun hgo => ?present)
    fun _ => ?_
  case present =>
    rw [not_or, not_or, not_or, Bool.not_eq_false] at hgo
    obtain ⟨request, hrequest⟩ := hhousing.read (hlow (Or.inr hpresent)) hgo.2.2.2
    rw [hrequest]
    exact exists_ok_ite (fun _ => ⟨_, rfl⟩) fun _ => ⟨_, rfl⟩
  refine exists_ok_ite (fun _ => exists_ok_ite (fun _ => ⟨_, rfl⟩) fun _ =>
    exists_ok_ite (fun _ => ⟨_, rfl⟩) fun _ => ⟨_, rfl⟩) fun _ => ?_
  refine exists_ok_ite (fun _ => ⟨_, rfl⟩) fun _ => ?_
  refine exists_ok_ite (fun _ => ?send) fun _ => exists_ok_ite (fun _ => ?receive) fun _ =>
    exists_ok_ite (fun _ => ⟨_, rfl⟩) fun _ => ⟨_, rfl⟩
  case send =>
    unfold sysIpcSend
    rw [hquiet.send]
    exact ⟨_, rfl⟩
  case receive =>
    unfold sysIpcReceive
    split
    · exact ⟨_, rfl⟩
    · rw [if_pos (hquiet.pending _)]
      exact ⟨_, rfl⟩

theorem interruptDispatch_returns {frame : InterruptFrame} {cr2 : UInt64}
    (h : (UserEvent.interrupt frame cr2).Served images) :
    ∃ r, interruptDispatch images k frame cr2 = .ok r := by
  refine exists_ok_ite (fun _ => ⟨_, rfl⟩) fun hspurious => exists_ok_ite
    (fun _ => exists_ok_ite (fun _ => ⟨_, rfl⟩) fun _ => ⟨_, rfl⟩) fun hhandler =>
      exists_ok_ite (fun _ => ⟨_, rfl⟩) fun hexception => ?_
  rcases h with h | h | h
  · exact absurd h hspurious
  · exact absurd h hhandler
  · exact absurd h hexception

theorem userEvent_leaves {event : UserEvent} {r : Kernel × UserAction} (hrun : k.running = some i)
    (h : event.Leaves) (hr : userEvent images k event = .ok r) : r.2 ≠ .ret := by
  cases event with
  | store => exact h.elim
  | interrupt => exact h.elim
  | syscall c =>
    have hleaves : ∃ e, syscallSwitch k.countSyscall i c = .ok e ∧ e.2.2 ≠ .ret := by
      rcases h with h | h
      · rw [show syscallSwitch k.countSyscall i c = sysYield k.countSyscall i c by
          simp only [syscallSwitch, h]; rfl]
        refine ⟨_, rfl, ?_⟩
        intro hret
        cases hret
      · rw [show syscallSwitch k.countSyscall i c = sysExit k.countSyscall i c by
          simp only [syscallSwitch, h]; rfl]
        refine ⟨_, rfl, ?_⟩
        intro hret
        cases hret
    obtain ⟨e, he, hne⟩ := hleaves
    rw [← syscallDispatch_eq hrun] at he
    rw [userEvent_syscall he] at hr
    cases hr
    exact hne

variable {frames : List Nat} (hheld : KernelHeld k₀.phys paging frames)

include hheld

theorem userEvent_returns {event : UserEvent} (hreach : Reachable images paging k₀ k)
    (hrun : k.running = some i) (h : event.Served images) :
    ∃ r, userEvent images k event = .ok r := by
  have hsound := hreach.sound hheld
  obtain ⟨hcur, -⟩ := running_cases hrun
  have hlive : k.Live i := by
    rw [Kernel.Live, (hsound.scheduled.running i).mpr hcur]
    decide
  cases event with
  | store address value =>
    unfold userEvent
    rw [hcur]
    exact ⟨_, rfl⟩
  | syscall c =>
    obtain ⟨e, he⟩ := syscallSwitch_returns (k := k.countSyscall) (hsound.housed.live i hlive)
      ⟨(hsound.wired.quiet hlive).send, (hsound.wired.quiet hlive).pending⟩ h
    rw [← syscallDispatch_eq hrun] at he
    exact ⟨_, userEvent_syscall he⟩
  | interrupt frame cr2 => exact interruptDispatch_returns h

theorem archResumeUser_returns {run : List UserEvent} (hreach : Reachable images paging k₀ k)
    (hrun : k.running = some i) (hserved : ∀ event ∈ run, event.Served images)
    (hleaves : ∃ event ∈ run, event.Leaves) : ∃ r, archResumeUser images run k = .ok r := by
  induction run generalizing k with
  | nil =>
    obtain ⟨event, hmem, -⟩ := hleaves
    cases hmem
  | cons event rest ih =>
    rw [List.forall_mem_cons] at hserved
    obtain ⟨⟨k', action⟩, hr⟩ := userEvent_returns hheld hreach hrun hserved.1
    by_cases hret : action = .ret
    · subst hret
      obtain ⟨last, hlast, hl⟩ := hleaves
      have hmem : last ∈ rest := by
        rcases List.mem_cons.mp hlast with rfl | hmem
        · exact absurd rfl (userEvent_leaves hrun hl hr)
        · exact hmem
      obtain ⟨r, hrest⟩ := ih (hreach.step (.user i event hrun hr))
        ((userEvent_step hrun images event _ hr).running hrun) hserved.2 ⟨last, hmem, hl⟩
      refine ⟨r, ?_⟩
      rw [archResumeUser, hr]
      exact hrest
    · exact ⟨_, archResumeUser_last hr hret⟩

/-- **When a dispatch comes back.** In every reachable state between dispatches, a process that is
    ready and whose run the kernel can take, up to a yield or an exit, is dispatched with
    success. -/
theorem dispatch_returns {run : List UserEvent} (hreach : Reachable images paging k₀ k)
    (hcur : k.currentProcess = none) (hready : (k.processes i).state = .ready)
    (hserved : ∀ event ∈ run, event.Served images) (hleaves : ∃ event ∈ run, event.Leaves) :
    ∃ k', dispatchProcess images i run k = .ok (k', true) ∧ k'.currentProcess = none := by
  have hconf := hreach.scheduled.covered i (by rw [Kernel.Live, hready]; decide)
  obtain ⟨⟨k', action⟩, hresume⟩ := archResumeUser_returns hheld
    (hreach.step (.enter i hcur hconf hready)) (enter_running hconf) hserved hleaves
  exact ⟨_, (dispatchProcess_ready hconf hready hresume).1, rfl⟩

end Returns

end ArgusOs.Runtime
