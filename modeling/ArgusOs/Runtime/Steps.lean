/-
  The kernel as a transition system.

  `Moves` lists everything an entry from user code can do to the process that runs, and
  `UserStep` everything it can do to the kernel; `userEvent_step` is the inversion of all
  system calls and interrupts. `Step` is one transition of the whole: a process is entered,
  runs for one event, or gives the processor back; the scheduler wakes processes; an app is
  loaded or released. Every call of `process.c` is a run of such steps (`call_steps`,
  `processRunSelfTest_back`), so an invariant of the steps holds wherever the calls lead, and
  in every state inside them.
-/
import ArgusOs.Runtime.Dispatch

namespace ArgusOs.Runtime

open Lib Memory Capability Ipc Elf Function

variable {mem : Mem} {p : Process} {action : UserAction} {appId : UInt32} {k k' : Kernel}
  {i : Fin 8} {images : Images}

/-! ## What an entry from user code does -/

/-- What can happen to the process that runs, in memory `mem`; it takes a key from its queue only
    when it polls. -/
inductive Moves (polls : Prop) (mem : Mem) (p : Process) : UserAction → Process → Prop
  | same : Moves polls mem p .ret p
  | poll (hpolls : polls) (h : p.inputTail ≠ p.inputHead) : Moves polls mem p .ret p.takeKey
  | present (sequence : UInt32) (happ : p.appId ≠ 0) (hvalid : appSurfaceValid mem p = true) :
      Moves polls mem p .ret (p.present sequence)
  | yield (context : UserContext) : Moves polls mem p .yield (p.yield context)
  | exit (status : UInt64) : Moves polls mem p .exit (p.exit status)
  | wait (context : UserContext) (deadline : UInt64) (happ : p.appId ≠ 0)
      (hempty : p.inputTail = p.inputHead) : Moves polls mem p .wait (p.wait context deadline)
  | preempt (context : UserContext) : Moves polls mem p .preempt (p.preempt context)
  | fault (frame : InterruptFrame) (cr2 : UInt64) : Moves polls mem p .fault (p.fault frame cr2)

/-- What neither user code nor a load touches: the focus and the scheduler's cursor. -/
def Kernel.settings (k : Kernel) : UInt32 × Nat := (k.focusedAppId, k.schedulerCursor)

/-- Only memory, endpoints, process records, counters, the clock, the serial port and the
    history differ. -/
def SameKernel (k k' : Kernel) : Prop :=
  k' = { k with
    phys := ⟨k'.phys.mem, k.phys.pmm⟩
    ipc := k'.ipc
    processes := k'.processes
    counters := k'.counters
    timerTicks := k'.timerTicks
    serial := k'.serial
    lateStores := k'.lateStores }

section Same

variable (h : SameKernel k k')

include h

theorem SameKernel.paging : k'.kernelPaging = k.kernelPaging :=
  (congrArg Kernel.kernelPaging h).trans rfl

theorem SameKernel.current : k'.currentProcess = k.currentProcess :=
  (congrArg Kernel.currentProcess h).trans rfl

theorem SameKernel.configured : k'.configuredProcesses = k.configuredProcesses :=
  (congrArg Kernel.configuredProcesses h).trans rfl

theorem SameKernel.nextPid : k'.nextPid = k.nextPid := (congrArg Kernel.nextPid h).trans rfl

theorem SameKernel.settings : k'.settings = k.settings := (congrArg Kernel.settings h).trans rfl

theorem SameKernel.starts : k'.starts = k.starts := (congrArg Kernel.starts h).trans rfl

end Same

/-- The process in slot `i` can neither send a message nor has it one to receive. -/
structure Quiet (k : Kernel) (i : Fin 8) : Prop where
  send : ∀ handle,
    processCapability (k.processes i) handle capabilityIpc capRightSend wordMax = none
  pending : ∀ endpoint, ipcPending k.ipc endpoint (k.processes i).pid = 0

/-- What else an entry can do: nothing, or one store through a writable mapping. -/
inductive UserEffect (k : Kernel) (i : Fin 8) (k' : Kernel) : Prop
  | none (hphys : k'.phys = k.phys) (hipc : k'.ipc = k.ipc) (hlate : k'.lateStores = k.lateStores)
  | store (address physical flags : UInt64) (value : UInt8)
      (haddress : userAddress k.phys.mem (k.processes i).addressSpace address =
        some (physical, flags))
      (hflags : flags &&& pageWritable ≠ 0)
      (hphys : k'.phys = ⟨update k.phys.mem physical.toNat value, k.phys.pmm⟩)
      (hipc : k'.ipc = k.ipc)
      (hlate : k'.lateStores =
        if presentedPixel (k.processes i) physical ∧ value ≥ argusAppPaletteCount
        then k.lateStores + 1 else k.lateStores)
      (hprocesses : k'.processes = k.processes)

structure UserStep (polls : Prop) (k : Kernel) (i : Fin 8) (action : UserAction) (k' : Kernel) :
    Prop where
  kernel : SameKernel k k'
  others : ∀ j, j ≠ i → k'.processes j = k.processes j
  moves : Moves polls k.phys.mem (k.processes i) action (k'.processes i)
  effect : Quiet k i → UserEffect k i k'

theorem userStep_same {polls : Prop} (i : Fin 8) (he : Quiet k i → UserEffect k i k')
    (hk : SameKernel k k') (hp : k'.processes = k.processes) : UserStep polls k i .ret k' where
  kernel := hk
  others := fun j _ => by rw [hp]
  moves := by
    rw [hp]
    exact .same
  effect := he

/-- Counters, clock and serial port apart, nothing changed. -/
def Plain (k k' : Kernel) : Prop :=
  k' = { k with counters := k'.counters, timerTicks := k'.timerTicks, serial := k'.serial }

section Plain

variable (h : Plain k k')

include h

theorem Plain.processes : k'.processes = k.processes := (congrArg Kernel.processes h).trans rfl

theorem Plain.phys : k'.phys = k.phys := (congrArg Kernel.phys h).trans rfl

theorem Plain.ipc : k'.ipc = k.ipc := (congrArg Kernel.ipc h).trans rfl

theorem Plain.late : k'.lateStores = k.lateStores := (congrArg Kernel.lateStores h).trans rfl

theorem Plain.kernel : SameKernel k k' := by
  unfold SameKernel
  rw [h.processes, h.phys, h.ipc, h.late]
  exact h

theorem Plain.step {polls : Prop} (i : Fin 8) : UserStep polls k i .ret k' :=
  userStep_same i (fun _ => .none h.phys h.ipc h.late) h.kernel h.processes

end Plain

theorem userStep_set {polls : Prop} (hm : Moves polls k.phys.mem (k.processes i) action p)
    (h : Plain (k.setProcess i p) k') : UserStep polls k i action k' where
  kernel := h.kernel
  others := fun j hj => by rw [h.processes, Kernel.setProcess_of_ne k p hj]
  moves := by
    rw [h.processes, Kernel.setProcess_same]
    exact hm
  effect := fun _ => .none h.phys h.ipc h.late

section Inversion

variable {polls : Prop} (k : Kernel) (i : Fin 8) (c : UserContext)

/-- The entry is a step of the process in slot `i`. -/
abbrev StepEntry (polls : Prop) (k : Kernel) (i : Fin 8) (x : Except Stop Entry) : Prop :=
  Ensures x fun e => UserStep polls k i e.2.2 e.1

theorem answer_step (result : UInt64) (h : Plain k k') :
    StepEntry polls k i (answer k' c result) :=
  Ensures.ok (h.step i)

theorem refuse_step : StepEntry polls k i (refuse k c) :=
  answer_step k i c _ rfl

theorem sysWrite_step : StepEntry polls k i (sysWrite k i c) := by
  unfold sysWrite
  split
  · exact refuse_step k i c
  · refine Ensures.bind_eq ?_
    intro text _
    exact answer_step k i c _ rfl

theorem sysClockTicks_step : StepEntry polls k i (sysClockTicks k i c) := by
  unfold sysClockTicks
  split
  · exact answer_step k i c _ rfl
  · exact refuse_step k i c

theorem sysInputPoll_step (hpolls : polls) : StepEntry polls k i (sysInputPoll k i c) := by
  unfold sysInputPoll
  split
  · apply Ensures.ok
    unfold appInputPoll
    by_cases h : (k.processes i).inputTail = (k.processes i).inputHead
    · rw [if_pos h]
      exact userStep_set .same rfl
    · rw [if_neg h]
      exact userStep_set (.poll hpolls h) rfl
  · exact refuse_step k i c

theorem sysAppPresent_step : StepEntry polls k i (sysAppPresent k i c) := by
  unfold sysAppPresent presentWith
  split
  · exact refuse_step k i c
  · next h =>
    refine Ensures.bind_eq ?_
    intro request _
    split
    · exact refuse_step k i c
    · next hacc =>
      unfold presentAccepted at hacc
      rw [Bool.not_eq_false, Bool.and_eq_true] at hacc
      exact Ensures.ok (userStep_set (.present _ (fun h0 => h (Or.inl h0)) hacc.2) rfl)

theorem sysEventWait_step : StepEntry polls k i (sysEventWait k i c) := by
  unfold sysEventWait
  split
  · exact refuse_step k i c
  · next h =>
    split
    · exact answer_step k i c _ rfl
    · next hq =>
      have hempty : (k.processes i).inputTail = (k.processes i).inputHead := by
        by_contra hne
        exact hq (Or.inl hne)
      exact Ensures.ok (userStep_set (.wait _ _ (fun h0 => h (Or.inl h0)) hempty) rfl)

theorem sysIpcSend_step : StepEntry polls k i (sysIpcSend k i c) := by
  unfold sysIpcSend
  split
  · exact refuse_step k i c
  · next endpoint hsend =>
    have hloud : ∀ k', Quiet k i → UserEffect k i k' := by
      intro k' hq
      rw [hq.send c.rdi] at hsend
      cases hsend
    split
    · exact refuse_step k i c
    · refine Ensures.bind_eq ?_
      intro data _
      dsimp only
      split
      · exact Ensures.ok (userStep_same i (hloud _) rfl rfl)
      · exact Ensures.ok (userStep_same i (hloud _) rfl rfl)

theorem sysIpcReceive_step : StepEntry polls k i (sysIpcReceive k i c) := by
  unfold sysIpcReceive
  split
  · exact refuse_step k i c
  · next endpoint _ =>
    split
    · exact answer_step k i c _ rfl
    · next hpending =>
      have hloud : ∀ k', Quiet k i → UserEffect k i k' := fun _ hq =>
        absurd (hq.pending endpoint) hpending
      split
      · exact refuse_step k i c
      · dsimp only
        split
        · exact Ensures.ok (userStep_same i (hloud _) rfl rfl)
        · unfold deliver
          refine Ensures.bind_eq ?_
          intro mem _
          exact Ensures.ok (userStep_same i (hloud _) rfl rfl)

theorem sysYield_step : StepEntry polls k i (sysYield k i c) :=
  Ensures.ok (userStep_set (.yield _) rfl)

theorem sysExit_step : StepEntry polls k i (sysExit k i c) :=
  Ensures.ok (userStep_set (.exit _) rfl)

theorem syscallSwitch_step : StepEntry (c.rax = syscallInputPoll) k i (syscallSwitch k i c) := by
  unfold syscallSwitch
  refine Ensures.ite (fun _ => sysWrite_step k i c) fun _ => ?_
  refine Ensures.ite (fun _ => answer_step k i c _ rfl) fun _ => ?_
  refine Ensures.ite (fun _ => sysYield_step k i c) fun _ => ?_
  refine Ensures.ite (fun _ => sysExit_step k i c) fun _ => ?_
  refine Ensures.ite (fun _ => sysClockTicks_step k i c) fun _ => ?_
  refine Ensures.ite (fun h => sysInputPoll_step k i c h) fun _ => ?_
  refine Ensures.ite (fun _ => sysAppPresent_step k i c) fun _ => ?_
  refine Ensures.ite (fun _ => sysEventWait_step k i c) fun _ => ?_
  refine Ensures.ite (fun _ => answer_step k i c _ rfl) fun _ => ?_
  refine Ensures.ite (fun _ => sysIpcSend_step k i c) fun _ => ?_
  refine Ensures.ite (fun _ => sysIpcReceive_step k i c) fun _ => ?_
  exact Ensures.ite (fun _ => answer_step k i c _ rfl) fun _ => refuse_step k i c

end Inversion

/-- The event is a poll for input. -/
def UserEvent.polls : UserEvent → Prop
  | .syscall context => context.rax = syscallInputPoll
  | _ => False

theorem running_eq (hcur : k.currentProcess = some i) (hconf : i.val < k.configuredProcesses) :
    k.running = some i := by
  unfold Kernel.running
  rw [hcur]
  dsimp only
  rw [if_neg (Nat.not_le.mpr hconf)]

theorem running_cases (h : k.running = some i) :
    k.currentProcess = some i ∧ i.val < k.configuredProcesses := by
  unfold Kernel.running at h
  split at h
  · cases h
  · next j hj =>
    split at h
    · cases h
    · next hlt =>
      cases h
      exact ⟨hj, Nat.not_le.mp hlt⟩

/-- What happens after a plain change. -/
theorem UserStep.after {polls : Prop} {k₀ : Kernel} (hp : Plain k₀ k)
    (h : UserStep polls k i action k') : UserStep polls k₀ i action k' where
  kernel := by
    have hk := hp.kernel
    have h' := h.kernel
    unfold SameKernel at *
    rw [hk] at h'
    exact h'
  others := fun j hj => by rw [h.others j hj, hp.processes]
  moves := by
    rw [← hp.processes, ← hp.phys]
    exact h.moves
  effect := by
    intro hq
    have hq' : Quiet k i := by
      refine ⟨?_, ?_⟩
      · rw [hp.processes]
        exact hq.send
      · rw [hp.processes, hp.ipc]
        exact hq.pending
    cases h.effect hq' with
    | none hphys hipc hlate =>
      exact .none (hphys.trans hp.phys) (hipc.trans hp.ipc) (hlate.trans hp.late)
    | store address physical flags value haddress hflags hphys hipc hlate hprocesses =>
      rw [hp.processes, hp.phys] at haddress
      rw [hp.phys] at hphys
      rw [hp.processes, hp.late] at hlate
      exact .store address physical flags value haddress hflags hphys (hipc.trans hp.ipc) hlate
        (hprocesses.trans hp.processes)

section Events

variable (hrun : k.running = some i)

include hrun

theorem syscallDispatch_eq (c : UserContext) :
    syscallDispatch k c = syscallSwitch k.countSyscall i c := by
  unfold syscallDispatch
  rw [hrun]

theorem syscallDispatch_step (c : UserContext) :
    StepEntry (c.rax = syscallInputPoll) k i (syscallDispatch k c) := by
  rw [syscallDispatch_eq hrun]
  refine (syscallSwitch_step k.countSyscall i c).mono ?_
  intro e he
  exact UserStep.after (by rfl) he

theorem processOnUserInterrupt_step {polls : Prop} (frame : InterruptFrame) (cr2 : UInt64) :
    UserStep polls k i (processOnUserInterrupt k frame cr2).2
      (processOnUserInterrupt k frame cr2).1 := by
  unfold processOnUserInterrupt
  split
  · exact Plain.step (by rfl) i
  · rw [hrun]
    dsimp only
    split
    · exact Plain.step (by rfl) i
    · split
      · exact userStep_set (.fault frame cr2) rfl
      · split
        · exact userStep_set (.preempt frame.registers) rfl
        · exact Plain.step (by rfl) i

omit hrun in
theorem interruptHandler_plain (k : Kernel) (vector : UInt64) :
    Plain k (interruptHandler k vector) := by
  unfold interruptHandler
  split
  · rfl
  · rfl

theorem interruptDispatch_step {polls : Prop} (images : Images) (frame : InterruptFrame)
    (cr2 : UInt64) :
    Ensures (interruptDispatch images k frame cr2) fun r => UserStep polls k i r.2 r.1 := by
  unfold interruptDispatch
  split
  · exact Ensures.ok (Plain.step (by rfl) i)
  · split
    · have hplain := interruptHandler_plain k frame.vector
      have hrun' : (interruptHandler k frame.vector).running = some i := by
        unfold Kernel.running at hrun ⊢
        rw [hplain.kernel.current, hplain.kernel.configured]
        exact hrun
      dsimp only
      split
      · exact Ensures.ok ((processOnUserInterrupt_step hrun' frame cr2).after hplain)
      · exact Ensures.ok (hplain.step i)
    · split
      · exact Ensures.ok (processOnUserInterrupt_step hrun frame cr2)
      · exact Ensures.error _

omit hrun in
theorem userStore_step {polls : Prop} (k : Kernel) (i : Fin 8) (address : UInt64) (value : UInt8) :
    UserStep polls k i .ret (userStore k i address value) := by
  unfold userStore
  split
  · exact Plain.step (by rfl) i
  · next physical flags haddress =>
    split
    · exact Plain.step (by rfl) i
    · next hflags =>
      refine userStep_same i (fun _ => ?_) rfl rfl
      exact .store address physical flags value haddress hflags rfl rfl rfl rfl

/-- **Inversion of user events.** -/
theorem userEvent_step (images : Images) (event : UserEvent) :
    Ensures (userEvent images k event) fun r => UserStep event.polls k i r.2 r.1 := by
  cases event with
  | store address value =>
    unfold userEvent
    dsimp only
    rw [(running_cases hrun).1]
    exact Ensures.ok (userStore_step k i address value)
  | syscall context =>
    refine (syscallDispatch_step hrun context).bind ?_
    intro e he
    exact Ensures.ok he
  | interrupt frame cr2 => exact interruptDispatch_step hrun images frame cr2

end Events

/-- After an action other than returning, the process is in the state that goes with it. -/
theorem Moves.state {polls : Prop} {p' : Process} (h : Moves polls mem p action p')
    (hne : action ≠ .ret) : action.state = some p'.state := by
  cases h with
  | same | poll | present => exact absurd rfl hne
  | yield | exit | wait | preempt | fault => rfl

theorem Moves.keeps_state {polls : Prop} {p' : Process} (h : Moves polls mem p .ret p') :
    p'.state = p.state := by
  cases h with
  | same | poll | present => rfl

/-! ## Transitions -/

/-- The test slot once a probe is in it. -/
def Kernel.coverTest (k : Kernel) (preemption : Bool) : Kernel :=
  { k with configuredProcesses := processTestSlot.val + 1, preemptionEnabled := preemption }

inductive Step (images : Images) : Kernel → Kernel → Prop
  | enter {k : Kernel} (i : Fin 8) (hcur : k.currentProcess = none)
      (hconf : i.val < k.configuredProcesses) (hready : (k.processes i).state = .ready) :
      Step images k (k.enter i)
  | user {k k' : Kernel} (i : Fin 8) (event : UserEvent) (hrun : k.running = some i)
      (h : userEvent images k event = .ok (k', .ret)) : Step images k k'
  | leave {k k' : Kernel} (i : Fin 8) (event : UserEvent) (action : UserAction)
      (hrun : k.running = some i) (h : userEvent images k event = .ok (k', action))
      (hne : action ≠ .ret) : Step images k k'.leave
  | wake {k : Kernel} (hcur : k.currentProcess = none) : Step images k (wakeBlockedProcesses k)
  | setActive {k : Kernel} (appId : UInt32) (hcur : k.currentProcess = none) :
      Step images k (processAppSetActive k appId)
  | input {k : Kernel} (appId : UInt32) (key : UInt8) (hcur : k.currentProcess = none) :
      Step images k (processAppInput appId key k).1
  | timerTick {k : Kernel} : Step images k (interruptHandler k apicTimerVector)
  | cursor {k : Kernel} (position : Nat) (passed : Bool)
      (h : k.processSelfTestPassed = true → passed = true) :
      Step images k { k with schedulerCursor := position, processSelfTestPassed := passed }
  | loadProbe {k k' : Kernel} (image : List UInt8) (preemption done : Bool)
      (hcur : k.currentProcess = none)
      (hbare : ∀ i : Fin 8, 2 ≤ i.val → (k.processes i).state = .unused)
      (h : k.loadProbe processTestSlot image = .ok (k', done)) :
      Step images k (if done then k'.coverTest preemption else k')
  | loadApp {k k' : Kernel} (index : Fin 3) (done : Bool) (hcur : k.currentProcess = none)
      (hfree : (k.processes (catalogSlot index)).state = .unused)
      (h : k.loadApp images index = .ok (k', done)) :
      Step images k (if done then k'.cover (catalogSlot index) else k')
  | release {k : Kernel} (i : Fin 8) (hcur : k.currentProcess = none) (happ : 2 ≤ i.val)
      (hlive : k.Live i) : Step images k (k.release i)
  | bare {k : Kernel} (hcur : k.currentProcess = none)
      (hbare : ∀ i : Fin 8, 2 ≤ i.val → (k.processes i).state = .unused) :
      Step images k { k with configuredProcesses := processProbeCount }

/-- Any number of steps. -/
abbrev Steps (images : Images) : Kernel → Kernel → Prop := Relation.ReflTransGen (Step images)

/-- A property that every step keeps holds after any number of them. -/
theorem Steps.invariant {inv : Kernel → Prop} (hstep : ∀ k k', inv k → Step images k k' → inv k')
    (h : Steps images k k') (hk : inv k) : inv k' := by
  induction h with
  | refl => exact hk
  | tail _ hs ih => exact hstep _ _ ih hs

/-! ## Dispatch -/

/-- What a run of user code in slot `i` comes to. -/
structure Resumed (images : Images) (k : Kernel) (i : Fin 8) (r : Kernel × UserAction) : Prop where
  steps : Steps images k r.1.leave
  state : r.2.state = some (r.1.processes i).state
  others : ∀ j, j ≠ i → r.1.processes j = k.processes j
  configured : r.1.configuredProcesses = k.configuredProcesses
  settings : r.1.settings = k.settings

theorem UserStep.running {polls : Prop} (h : UserStep polls k i action k')
    (hrun : k.running = some i) : k'.running = some i := by
  unfold Kernel.running at hrun ⊢
  rw [h.kernel.current, h.kernel.configured]
  exact hrun

theorem archResumeUser_steps (images : Images) (run : List UserEvent) (hrun : k.running = some i) :
    Ensures (archResumeUser images run k) (Resumed images k i) := by
  induction run generalizing k with
  | nil => exact Ensures.error _
  | cons event rest ih =>
    intro r hr
    unfold archResumeUser at hr
    cases hev : userEvent images k event with
    | error stop =>
      rw [hev] at hr
      cases hr
    | ok entry =>
      have hstep := userEvent_step hrun images event entry hev
      rw [hev] at hr
      change (if entry.2 = .ret then archResumeUser images rest entry.1 else .ok entry) =
        .ok r at hr
      by_cases hret : entry.2 = .ret
      · -- the process runs on
        rw [if_pos hret] at hr
        have hk := hstep.kernel
        have hrun' := hstep.running hrun
        have hrest := ih hrun' r hr
        have hev' : userEvent images k event = .ok (entry.1, .ret) := by rw [hev, ← hret]
        refine ⟨.head (.user i event hrun hev') hrest.steps, hrest.state, ?_, ?_, ?_⟩
        · intro j hj
          rw [hrest.others j hj, hstep.others j hj]
        · rw [hrest.configured, hk.configured]
        · rw [hrest.settings, hk.settings]
      · rw [if_neg hret] at hr
        rw [Except.ok.injEq] at hr
        rw [← hr]
        exact ⟨.single (.leave i event entry.2 hrun hev hret), hstep.moves.state hret, hstep.others,
          hstep.kernel.configured, hstep.kernel.settings⟩

theorem userEvent_syscall {c : UserContext} {e : Entry} (h : syscallDispatch k c = .ok e) :
    userEvent images k (.syscall c) = .ok (e.1, e.2.2) := by
  show (syscallDispatch k c >>= fun entry => .ok (entry.1, entry.2.2)) = _
  rw [h]
  rfl

theorem archResumeUser_last {images : Images} {k : Kernel} {event : UserEvent}
    {rest : List UserEvent} {r : Kernel × UserAction} (h : userEvent images k event = .ok r)
    (hne : r.2 ≠ .ret) : archResumeUser images (event :: rest) k = .ok r := by
  unfold archResumeUser
  rw [h]
  exact if_neg hne

/-- The kernel is back from a call: it got there by steps and nothing runs. -/
structure Back (images : Images) (k k' : Kernel) : Prop where
  steps : Steps images k k'
  current : k'.currentProcess = none

theorem Back.refl (hcur : k.currentProcess = none) : Back images k k := ⟨.refl, hcur⟩

theorem Back.trans {k'' : Kernel} (h : Back images k k') (h' : Back images k' k'') :
    Back images k k'' := ⟨h.steps.trans h'.steps, h'.current⟩

theorem Back.single (h : Step images k k') (hcur : k'.currentProcess = none) :
    Back images k k' := ⟨.single h, hcur⟩

/-- The kernel is back, and the cursor where it was. -/
structure Returned (images : Images) (k k' : Kernel) : Prop extends Back images k k' where
  cursor : k'.schedulerCursor = k.schedulerCursor

theorem Returned.refl (hcur : k.currentProcess = none) : Returned images k k := ⟨.refl hcur, rfl⟩

theorem Returned.trans {k'' : Kernel} (h : Returned images k k') (h' : Returned images k' k'') :
    Returned images k k'' := ⟨h.toBack.trans h'.toBack, h'.cursor.trans h.cursor⟩

theorem Returned.single (h : Step images k k') (hcur : k'.currentProcess = none)
    (hcursor : k'.schedulerCursor = k.schedulerCursor) : Returned images k k' :=
  ⟨.single h hcur, hcursor⟩

/-- A dispatch of slot `i`. -/
structure Dispatched (images : Images) (k : Kernel) (i : Fin 8) (k' : Kernel) : Prop
    extends Back images k k' where
  configured : k'.configuredProcesses = k.configuredProcesses
  settings : k'.settings = k.settings
  unused : ∀ j, (k.processes j).state = .unused → (k'.processes j).state = .unused

theorem Dispatched.returned (h : Dispatched images k i k') : Returned images k k' :=
  ⟨h.toBack, congrArg Prod.snd h.settings⟩

theorem enter_self (k : Kernel) (i : Fin 8) :
    (k.enter i).processes i = { k.processes i with state := .running } :=
  Kernel.setProcess_same ..

theorem enter_running (hconf : i.val < k.configuredProcesses) :
    (k.enter i).running = some i := running_eq rfl hconf

theorem dispatchProcess_steps (images : Images) (i : Fin 8) (run : List UserEvent)
    (hcur : k.currentProcess = none) :
    Ensures (dispatchProcess images i run k) fun r => Dispatched images k i r.1 := by
  unfold dispatchProcess
  refine Ensures.ite (fun _ => Ensures.ok ⟨.refl hcur, rfl, rfl, fun _ h => h⟩) fun hgo => ?_
  rw [not_or, Nat.not_le, not_not] at hgo
  obtain ⟨hconf, hready⟩ := hgo
  refine (archResumeUser_steps images run (enter_running hconf)).bind ?_
  intro r hr
  refine Ensures.ok ⟨⟨.head (.enter i hcur hconf hready) hr.steps, rfl⟩, hr.configured,
    hr.settings, ?_⟩
  intro j hj
  have hne : j ≠ i := by
    intro hc
    rw [hc, hready] at hj
    cases hj
  show (r.1.processes j).state = .unused
  rw [hr.others j hne]
  unfold Kernel.enter
  dsimp only
  rw [Kernel.setProcess_of_ne _ _ hne]
  exact hj

/-! ## Loads -/

theorem loaded_eq {outcome : Except Nat (Loading × Bool)} {done : Bool}
    (h : k.loaded i outcome = .ok (k', done)) :
    ∃ l, outcome = .ok (l, done) ∧
      k' = { k.store i l with nextPid := k.nextPid + 1, starts := k.starts + 1 } := by
  unfold Kernel.loaded at h
  split at h
  · cases h
  · next l d =>
    cases h
    exact ⟨l, rfl, rfl⟩

theorem store_same (k : Kernel) (i : Fin 8) (l : Loading) : (k.store i l).processes i = l.process :=
  Kernel.setProcess_same ..

theorem store_of_ne (k : Kernel) {j : Fin 8} (l : Loading) (h : j ≠ i) :
    (k.store i l).processes j = k.processes j := Kernel.setProcess_of_ne _ _ h

variable {index : Fin 3}

section Loads

variable {done : Bool}

theorem loaded_of_ne {outcome : Except Nat (Loading × Bool)} {j : Fin 8}
    (h : k.loaded i outcome = .ok (k', done)) (hne : j ≠ i) : k'.processes j = k.processes j := by
  obtain ⟨l, -, rfl⟩ := loaded_eq h
  exact store_of_ne _ _ hne

/-- A load leaves its process ready if it completes, and unused if not. -/
theorem loadProbe_record {image : List UInt8} (hfree : (k.processes i).state = .unused)
    (h : k.loadProbe i image = .ok (k', done)) :
    if done then Born k.nextPid 0 (k'.processes i) else (k'.processes i).state = .unused := by
  obtain ⟨l, hl, rfl⟩ := loaded_eq h
  have hrecord := loadFlatProbe_record hfree hl
  rw [← store_same k i l] at hrecord
  exact hrecord

theorem loadApp_record (hfree : (k.processes (catalogSlot index)).state = .unused)
    (h : k.loadApp images index = .ok (k', done)) :
    if done then Born k.nextPid (catalogAppId index) (k'.processes (catalogSlot index))
    else (k'.processes (catalogSlot index)).state = .unused := by
  obtain ⟨l, hl, rfl⟩ := loaded_eq h
  have hrecord := loadElfApp_record hfree hl
  rw [← store_same k (catalogSlot index) l] at hrecord
  exact hrecord

/-- What comes of a load: a process that is ready, or an unused record. -/
theorem state_of_record {pid : UInt64} (h : if done then Born pid appId p else p.state = .unused) :
    p.state = if done then .ready else .unused := by
  cases done with
  | false => exact h
  | true => exact congrArg Process.state (Born.core h)

end Loads

theorem findCatalog_catalogAppId (h : findCatalog appId = some index) :
    catalogAppId index = appId := by
  have := firstSlot_true h
  simpa using this

theorem appSlot_cases (h : appSlot appId = some i) :
    ∃ index, i = catalogSlot index ∧ appId = catalogAppId index := by
  unfold appSlot at h
  rw [Option.map_eq_some_iff] at h
  obtain ⟨index, hfind, rfl⟩ := h
  exact ⟨index, rfl, (findCatalog_catalogAppId hfind).symm⟩

theorem catalogSlot_ge (index : Fin 3) : 2 ≤ (catalogSlot index).val :=
  Nat.le_add_right ..

theorem findApp_cases (h : findApp k appId = some i) :
    k.Live i ∧ ∃ index, i = catalogSlot index ∧
    appId = catalogAppId index := by
  unfold findApp at h
  split at h
  · cases h
  · next j hj =>
    split at h
    · cases h
    · next hlive =>
      cases h
      exact ⟨hlive, appSlot_cases hj⟩

/-! ## Calls -/

section Calls

variable (images : Images) (hcur : k.currentProcess = none)

include hcur

theorem releaseApp_back (appId : UInt32) : Returned images k (k.releaseApp appId) := by
  unfold Kernel.releaseApp
  split
  · exact .refl hcur
  · next i hi =>
    obtain ⟨hlive, index, rfl, -⟩ := findApp_cases hi
    exact .single (.release _ hcur (catalogSlot_ge index) hlive) hcur rfl

theorem startDispatches_back (i : Fin 8) (left : Nat) (runs : List (List UserEvent)) :
    Ensures (startDispatches images i left runs k) (Returned images k) := by
  induction left generalizing k runs with
  | zero => exact Ensures.ok (.refl hcur)
  | succ left ih =>
    unfold startDispatches
    refine Ensures.ite (fun _ => Ensures.ok (.refl hcur)) fun _ => ?_
    refine (dispatchProcess_steps images i _ hcur).bind ?_
    intro r hr
    refine Ensures.ite (fun _ => Ensures.ok hr.returned) fun _ => ?_
    exact (ih hr.current _).mono fun _ h => hr.returned.trans h

theorem startLoaded_back (i : Fin 8) (runs : List (List UserEvent)) (happ : 2 ≤ i.val)
    (hlive : k.Live i) :
    Ensures (startLoaded images i runs k) fun r => Returned images k r.1 := by
  unfold startLoaded
  refine Ensures.ite (fun _ => Ensures.ok (.single (.release i hcur happ hlive) hcur rfl)) fun _ =>
    ?_
  refine (startDispatches_back images hcur i _ runs).bind ?_
  intro k' hk'
  exact Ensures.ok hk'

theorem startCatalog_back (index : Fin 3) (runs : List (List UserEvent)) :
    Ensures (startCatalog images index runs k) fun r => Returned images k r.1 := by
  unfold startCatalog
  refine Ensures.ite (fun _ => Ensures.ok (.refl hcur)) fun hfree => ?_
  rw [not_not] at hfree
  refine Ensures.bind_eq ?_
  rintro ⟨k', done⟩ hload
  have hstep := @Step.loadApp images _ _ index done hcur hfree hload
  have hstate := state_of_record (loadApp_record hfree hload)
  obtain ⟨hcur', hcursor⟩ : k'.currentProcess = none ∧ k'.schedulerCursor = k.schedulerCursor := by
    obtain ⟨l, -, rfl⟩ := loaded_eq hload
    exact ⟨hcur, rfl⟩
  refine Ensures.ite (fun hd => ?_) fun hd => ?_
  · change done = false at hd
    rw [hd] at hstep ⊢
    exact Ensures.ok (.single hstep hcur' hcursor)
  · change ¬ done = false at hd
    rw [Bool.not_eq_false] at hd
    rw [hd] at hstep hstate
    have hlive : ((k'.cover (catalogSlot index)).processes (catalogSlot index)).state ≠
        .unused := by
      show (k'.processes (catalogSlot index)).state ≠ .unused
      rw [hstate]
      decide
    refine (startLoaded_back images (k := k'.cover (catalogSlot index)) hcur' _ runs
      (catalogSlot_ge index) hlive).mono ?_
    intro r hr
    exact (Returned.single hstep hcur' hcursor).trans hr

theorem startAppInternal_back (appId : UInt32) (runs : List (List UserEvent)) :
    Ensures (startAppInternal images appId runs k) fun r => Returned images k r.1 := by
  unfold startAppInternal
  split
  · exact Ensures.ok (.refl hcur)
  · exact startCatalog_back images hcur _ runs

theorem processAppSetActive_back (appId : UInt32) :
    Returned images k (processAppSetActive k appId) :=
  .single (.setActive appId hcur) hcur rfl

/-- The app is loaded again, and takes the keys if `focused` says so. -/
theorem replaceApp_back (appId : UInt32) (runs : List (List UserEvent))
    (focused : Kernel → UInt32) :
    Ensures (startAppInternal images appId runs (k.releaseApp appId) >>= fun started =>
        if started.2 = false then .ok started
        else if focused started.1 = appId then .ok (processAppSetActive started.1 appId, true)
        else .ok started) fun r => Returned images k r.1 := by
  have hrel := releaseApp_back images hcur appId
  refine (startAppInternal_back images hrel.current appId runs).bind ?_
  intro r hr
  have hr' := hrel.trans hr
  refine Ensures.ite (fun _ => Ensures.ok hr') fun _ => ?_
  refine Ensures.ite (fun _ => Ensures.ok ?_) fun _ => Ensures.ok hr'
  exact hr'.trans (processAppSetActive_back images hr'.current appId)

theorem processAppStart_back (appId : UInt32) (runs : List (List UserEvent)) :
    Ensures (processAppStart images appId runs k) fun r => Returned images k r.1 := by
  unfold processAppStart
  refine Ensures.ite (fun _ => Ensures.ok (.refl hcur)) fun _ => ?_
  refine Ensures.ite (fun _ => Ensures.ok (.refl hcur)) fun _ => ?_
  exact replaceApp_back images hcur appId runs (·.focusedAppId)

theorem processAppRestart_back (appId : UInt32) (runs : List (List UserEvent)) :
    Ensures (processAppRestart images appId runs k) fun r => Returned images k r.1 := by
  unfold processAppRestart
  refine Ensures.ite (fun _ => Ensures.ok (.refl hcur)) fun _ => ?_
  exact replaceApp_back images hcur appId runs fun _ => k.focusedAppId

theorem processAppStop_back (appId : UInt32) : Returned images k (processAppStop appId k).1 := by
  unfold processAppStop
  split
  · exact .refl hcur
  · exact releaseApp_back images hcur appId

theorem processAppInput_back (appId : UInt32) (key : UInt8) :
    Returned images k (processAppInput appId key k).1 := by
  have hkept : (processAppInput appId key k).1.currentProcess = k.currentProcess ∧
      (processAppInput appId key k).1.schedulerCursor = k.schedulerCursor := by
    unfold processAppInput
    split
    · exact ⟨rfl, rfl⟩
    · split
      · exact ⟨rfl, rfl⟩
      · exact ⟨rfl, rfl⟩
  exact .single (.input appId key hcur) (hkept.1.trans hcur) hkept.2

theorem processRunReadyOnce_back (run : List UserEvent) :
    Ensures (processRunReadyOnce images run k) fun r => Back images k r.1 := by
  unfold processRunReadyOnce
  refine Ensures.ite (fun _ => Ensures.ok (.refl hcur)) fun _ => ?_
  have hwake : Back images k (wakeBlockedProcesses k) := .single (.wake hcur) hcur
  dsimp only
  split
  · exact Ensures.ok hwake
  · next i _ =>
    have hcursor : Back images (wakeBlockedProcesses k)
        { wakeBlockedProcesses k with
          schedulerCursor := (i.val + 1) % (wakeBlockedProcesses k).configuredProcesses } :=
      .single (.cursor _ (wakeBlockedProcesses k).processSelfTestPassed id) hcur
    refine (dispatchProcess_steps images i run hcursor.current).mono ?_
    intro r hr
    exact (hwake.trans hcursor).trans hr.toBack

/-- **Every call is made of steps**, and only `process_run_ready_once` moves the cursor. -/
theorem call_steps (call : Call) : Ensures (call.exec images k) fun r => Back images k r.1 ∧
    ((∀ run, call ≠ .runReadyOnce run) → r.1.schedulerCursor = k.schedulerCursor) := by
  have hreturned : ∀ {k'}, Returned images k k' → Back images k k' ∧
      ((∀ run, call ≠ .runReadyOnce run) → k'.schedulerCursor = k.schedulerCursor) :=
    fun h => ⟨h.toBack, fun _ => h.cursor⟩
  cases call with
  | appStart appId runs => exact (processAppStart_back images hcur appId runs).mono fun _ =>
    hreturned
  | appStop appId => exact Ensures.ok (hreturned (processAppStop_back images hcur appId))
  | appRestart appId runs =>
    exact (processAppRestart_back images hcur appId runs).mono fun _ => hreturned
  | appSetActive appId => exact Ensures.ok (hreturned (processAppSetActive_back images hcur appId))
  | appInput appId key => exact Ensures.ok (hreturned (processAppInput_back images hcur appId key))
  | runReadyOnce run =>
    exact (processRunReadyOnce_back images hcur run).mono fun _ h =>
      ⟨h, fun hother => absurd rfl (hother run)⟩
  | timerTick => exact Ensures.ok ⟨.single .timerTick hcur, fun _ => rfl⟩

end Calls

/-! ## The self-test -/

/-- Only the two probes may be there. -/
def Bare (k : Kernel) : Prop := ∀ i : Fin 8, 2 ≤ i.val → (k.processes i).state = .unused

section SelfTest

variable (images : Images) (hcur : k.currentProcess = none)

include hcur

theorem probeDispatches_back (left : Nat) (runs : List (List UserEvent)) (next : Nat)
    (hbare : Bare k) :
    Ensures (probeDispatches images left runs next k) fun r => Back images k r.1 ∧ Bare r.1 := by
  induction left generalizing k runs next with
  | zero => exact Ensures.ok ⟨.refl hcur, hbare⟩
  | succ left ih =>
    unfold probeDispatches
    split
    · exact Ensures.ok ⟨.refl hcur, hbare⟩
    · next i _ =>
      refine (dispatchProcess_steps images i _ hcur).bind ?_
      intro r hr
      have hbare' : Bare r.1 := fun j hj => hr.unused j (hbare j hj)
      refine Ensures.ite (fun _ => Ensures.ok ⟨hr.toBack, hbare'⟩) fun _ => ?_
      exact (ih hr.current _ _ hbare').mono fun _ h => ⟨hr.toBack.trans h.1, h.2⟩

theorem runTestProbe_back (image : List UInt8) (preemption : Bool) (run : List UserEvent)
    {passed : Kernel → Bool}
    (hpassed : ∀ k, passed k = true → k.Live processTestSlot)
    (hbare : Bare k) :
    Ensures (runTestProbe images image preemption run passed k) fun r =>
      Back images k r.1 ∧ (r.2 = true → Bare r.1) := by
  unfold runTestProbe
  refine Ensures.bind_eq ?_
  rintro ⟨k', done⟩ hload
  have hstep := @Step.loadProbe images _ _ image preemption done hcur hbare hload
  have hcur' : k'.currentProcess = none := by
    obtain ⟨l, -, rfl⟩ := loaded_eq hload
    exact hcur
  refine Ensures.ite (fun hd => ?_) fun hd => ?_
  · change done = false at hd
    rw [hd] at hstep ⊢
    exact Ensures.ok ⟨.single hstep hcur', fun h => Bool.noConfusion h⟩
  · change ¬ done = false at hd
    rw [Bool.not_eq_false] at hd
    rw [hd] at hstep
    have hloaded := Back.single hstep hcur'
    refine (dispatchProcess_steps images processTestSlot run hloaded.current).bind ?_
    intro r hr
    have hback := hloaded.trans hr.toBack
    refine Ensures.ite (fun _ => Ensures.ok ⟨hback, fun h => Bool.noConfusion h⟩) fun hgo => ?_
    rw [not_or, Bool.not_eq_false, Bool.not_eq_false] at hgo
    have hrel : Back images r.1 (r.1.release processTestSlot) :=
      .single (.release _ hback.current (Nat.le_refl 2) (hpassed _ hgo.2)) hback.current
    -- the slot is free again, and no other was touched
    have hbare' : Bare (r.1.release processTestSlot) := by
      intro i hi
      by_cases hs : i = processTestSlot
      · rw [hs]
        exact congrArg Process.state (store_same ..)
      · unfold Kernel.release
        rw [store_of_ne _ _ hs]
        apply hr.unused
        show (k'.processes i).state = .unused
        rw [loaded_of_ne hload hs]
        exact hbare i hi
    exact Ensures.ok ⟨(hback.trans hrel).trans (.single (.bare hrel.current hbare') hrel.current),
      fun _ => hbare'⟩

theorem startCatalogApps_back (runs : Fin 3 → List (List UserEvent)) (indices : List (Fin 3)) :
    Ensures (startCatalogApps images runs indices k) fun r => Back images k r.1 := by
  induction indices generalizing k with
  | nil => exact Ensures.ok (.refl hcur)
  | cons index rest ih =>
    unfold startCatalogApps
    refine (startAppInternal_back images hcur _ _).bind ?_
    intro r hr
    refine Ensures.ite (fun _ => Ensures.ok hr.toBack) fun _ => ?_
    refine Ensures.ite (fun _ => Ensures.ok hr.toBack) fun _ => ?_
    exact (ih hr.current).mono fun _ h => hr.toBack.trans h

theorem selfTestProbes_back (runs : SelfTestRuns) (hbare : Bare k) :
    Ensures (selfTestProbes images runs k) fun r => Back images k r.1 ∧
    (r.2 = true → Bare r.1) := by
  unfold selfTestProbes
  refine (probeDispatches_back images hcur _ _ _ hbare).bind ?_
  intro probes hprobes
  obtain ⟨hback, hbare₁⟩ := hprobes
  refine Ensures.ite (fun _ => Ensures.ok ⟨hback, fun h => Bool.noConfusion h⟩) fun _ => ?_
  have hfault : ∀ k, faultPassed k = true → k.Live processTestSlot := by
    intro k h hc
    simp [faultPassed, hc] at h
  refine (runTestProbe_back images hback.current _ _ _ hfault hbare₁).bind ?_
  intro fault h₂
  obtain ⟨hback₂, hbare₂⟩ := h₂
  have hback₂ := hback.trans hback₂
  refine Ensures.ite (fun _ => Ensures.ok ⟨hback₂, hbare₂⟩) fun hf => ?_
  have hspin : ∀ k, spinPassed k = true → k.Live processTestSlot := by
    intro k h hc
    simp [spinPassed, hc] at h
  exact (runTestProbe_back images hback₂.current _ _ _ hspin
    (hbare₂ (Bool.not_eq_false _ ▸ hf))).mono fun _ h₃ => ⟨hback₂.trans h₃.1, h₃.2⟩

/-- **The self-test is made of steps**, when it starts with nothing but the probes. -/
theorem processRunSelfTest_back (runs : SelfTestRuns) (hbare : Bare k) :
    Ensures (processRunSelfTest images runs k) fun r => Back images k r.1 := by
  unfold processRunSelfTest
  refine Ensures.ite (fun _ => Ensures.ok (.refl hcur)) fun _ => ?_
  refine (selfTestProbes_back images hcur runs hbare).bind ?_
  intro probes hprobes
  obtain ⟨hback, -⟩ := hprobes
  refine Ensures.ite (fun _ => Ensures.ok hback) fun _ => ?_
  refine (startCatalogApps_back images hback.current _ _).bind ?_
  intro apps happs
  have hback' := hback.trans happs
  refine Ensures.ite (fun _ => Ensures.ok hback') fun _ => Ensures.ok ?_
  exact hback'.trans (.single (.cursor 0 true fun _ => rfl) hback'.current)

end SelfTest

end ArgusOs.Runtime
