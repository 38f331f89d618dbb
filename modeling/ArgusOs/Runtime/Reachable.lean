/-
  Reachable process tables and the discipline of process states.

  `Reachable` is closed under the calls of the kernel, under the self-test, and under the
  single steps inside them. `Reachable.invariant` reduces a property of every reachable
  state to the state `process_init` leaves and to one step.

  `Scheduled` is the first such property: a process runs exactly when it is the current one,
  every process that is there lies below `configured_processes`, and a blocked process is an
  app whose input queue is empty.
-/
import ArgusOs.Runtime.ImageRoom
import ArgusOs.Runtime.Steps

namespace ArgusOs.Runtime

open Lib Memory Capability Ipc Elf Function

variable {images : Images} {paging : PagingInfo} {k k₀ : Kernel} {p : Process} {i : Fin 8}

/-! ## Reachable states -/

inductive Reachable (images : Images) (paging : PagingInfo) (k₀ : Kernel) : Kernel → Prop
  | init {k : Kernel} (h : processInit images paging k₀ = .ok (k, true)) :
      Reachable images paging k₀ k
  | selfTest {k k' : Kernel} {done : Bool} (runs : SelfTestRuns)
      (h : processInit images paging k₀ = .ok (k, true))
      (h' : processRunSelfTest images runs k = .ok (k', done)) : Reachable images paging k₀ k'
  | call {k k' : Kernel} {result : Bool} (call : Call) (h : Reachable images paging k₀ k)
      (hcur : k.currentProcess = none) (h' : call.exec images k = .ok (k', result)) :
      Reachable images paging k₀ k'
  | step {k k' : Kernel} (h : Reachable images paging k₀ k) (h' : Step images k k') :
      Reachable images paging k₀ k'

/-- A probe has been loaded and counted. -/
def Kernel.countProbe (k : Kernel) : Kernel :=
  { k with configuredProcesses := k.configuredProcesses + 1 }

theorem initProbe_cases {k' : Kernel} (h : initProbe images i k = .ok (k', true)) :
    ∃ k₁, k.loadProbe i images.userProbe = .ok (k₁, true) ∧ k' = k₁.countProbe := by
  unfold initProbe at h
  cases hload : k.loadProbe i images.userProbe with
  | error stop =>
    rw [hload] at h
    cases h
  | ok loaded =>
    obtain ⟨k₁, done⟩ := loaded
    rw [hload] at h
    cases done with
    | false =>
      change Except.ok (_, false) = Except.ok (k', true) at h
      cases h
    | true =>
      change Except.ok (k₁.countProbe, true) = Except.ok (k', true) at h
      cases h
      exact ⟨k₁, rfl, rfl⟩

/-- The two probes of a successful `process_init`. -/
theorem processInit_cases (h : processInit images paging k₀ = .ok (k, true)) :
    ∃ k₁ k₂, (k₀.reset paging).loadProbe 0 images.userProbe = .ok (k₁, true) ∧
      (k₁.countProbe.processes 1).state = .unused ∧
      k₁.countProbe.loadProbe 1 images.userProbe = .ok (k₂, true) ∧
      k = { k₂.countProbe with addressSpacesIsolated := true, schedulerReady := true } := by
  unfold processInit at h
  by_cases hroot : paging.rootTable = 0
  · rw [if_pos hroot] at h
    cases h
  rw [if_neg hroot] at h
  dsimp only at h
  split at h
  · cases h
  cases hfirst : initProbe images 0 (k₀.reset paging) with
  | error stop =>
    rw [hfirst] at h
    cases h
  | ok first =>
    obtain ⟨f, df⟩ := first
    rw [hfirst] at h
    cases df with
    | false => cases h
    | true =>
      obtain ⟨k₁, hk₁, rfl⟩ := initProbe_cases hfirst
      change (initProbe images 1 k₁.countProbe >>= _) = _ at h
      cases hsecond : initProbe images 1 k₁.countProbe with
      | error stop =>
        rw [hsecond] at h
        cases h
      | ok second =>
        obtain ⟨s, ds⟩ := second
        rw [hsecond] at h
        cases ds with
        | false => cases h
        | true =>
          obtain ⟨k₂, hk₂, rfl⟩ := initProbe_cases hsecond
          change Except.ok ({ k₂.countProbe with
            addressSpacesIsolated := validateAddressSpaceIsolation k₂.countProbe
            schedulerReady := validateAddressSpaceIsolation k₂.countProbe },
            validateAddressSpaceIsolation k₂.countProbe) = Except.ok (k, true) at h
          rw [Except.ok.injEq, Prod.mk.injEq] at h
          obtain ⟨hk, hvalid⟩ := h
          rw [hvalid] at hk
          exact ⟨k₁, k₂, hk₁, congrArg Process.state (loaded_of_ne hk₁ (by decide)), hk₂, hk.symm⟩

/-- The probes are new processes. -/
theorem processInit_probe (h : processInit images paging k₀ = .ok (k, true)) (hi : i.val < 2) :
    Born (UInt64.ofNat (i.val + 1)) 0 (k.processes i) := by
  obtain ⟨k₁, k₂, h₁, hfree, h₂, rfl⟩ := processInit_cases h
  have hk₁ : k₁.countProbe.nextPid = 2 := by
    obtain ⟨l, -, rfl⟩ := loaded_eq h₁
    rfl
  show Born _ 0 (k₂.processes i)
  by_cases h1 : i = 1
  · rw [h1]
    have := loadProbe_record hfree h₂
    rw [hk₁] at this
    exact this
  · have h0 : i = 0 := by
      apply Fin.ext
      have : i.val ≠ 1 := fun hc => h1 (Fin.ext hc)
      show i.val = 0
      omega
    rw [loaded_of_ne h₂ h1, h0]
    exact loadProbe_record rfl h₁

/-- What `process_init` leaves, as far as the scheduler is concerned. -/
structure Initial (k : Kernel) : Prop where
  current : k.currentProcess = none
  bare : Bare k
  configured : k.configuredProcesses = 2
  probes : ∀ i : Fin 8, i.val < 2 → (k.processes i).state = .ready

theorem processInit_initial (h : processInit images paging k₀ = .ok (k, true)) : Initial k := by
  obtain ⟨k₁, k₂, h₁, -, h₂, rfl⟩ := processInit_cases h
  obtain ⟨l₁, -, hk₁⟩ := loaded_eq h₁
  obtain ⟨l₂, -, hk₂⟩ := loaded_eq h₂
  refine ⟨?_, ?_, ?_, ?_⟩
  · show k₂.currentProcess = none
    rw [hk₂]
    show k₁.currentProcess = none
    rw [hk₁]
    rfl
  · intro i hi
    have hne₁ : i ≠ 1 := fun hc => by subst hc; exact absurd hi (by decide)
    have hne₀ : i ≠ 0 := fun hc => by subst hc; exact absurd hi (by decide)
    show (k₂.processes i).state = .unused
    rw [loaded_of_ne h₂ hne₁]
    show (k₁.processes i).state = .unused
    rw [loaded_of_ne h₁ hne₀]
    rfl
  · show k₂.configuredProcesses + 1 = 2
    rw [hk₂]
    show k₁.configuredProcesses + 1 + 1 = 2
    rw [hk₁]
    rfl
  · exact fun i hi => congrArg Process.state (processInit_probe h hi).core

/-- **Invariants of reachable states.** -/
theorem Reachable.invariant (inv : Kernel → Prop)
    (hinit : ∀ k, processInit images paging k₀ = .ok (k, true) → inv k)
    (hstep : ∀ k k', inv k → Step images k k' → inv k') (h : Reachable images paging k₀ k) :
    inv k := by
  induction h with
  | init h => exact hinit _ h
  | selfTest runs h h' =>
    have hi := processInit_initial h
    have hback := processRunSelfTest_back images hi.current runs hi.bare _ h'
    exact Steps.invariant hstep hback.steps (hinit _ h)
  | call c _ hcur h' ih => exact Steps.invariant hstep (call_steps images hcur c _ h').1.steps ih
  | step _ h' ih => exact hstep _ _ ih h'

/-- One-byte probes and the one-page app; only the timer has a handler. -/
def sampleImages : Images := ⟨[0x90], [0x90], [0x90], fun _ => onePageImage, true, (· = 0x40)⟩

/-- The kernel before `process_init`, with memory and endpoints as its predecessors left them. -/
def Kernel.before (phys : Phys) : Kernel where
  phys := phys
  ipc := ipcInit
  transport := .offline
  processes := fun _ => .zero
  kernelPaging := ⟨0, false⟩
  currentProcess := none
  configuredProcesses := 0
  schedulerCursor := 0
  focusedAppId := 0
  nextPid := 0
  counters := .zero
  addressSpacesIsolated := false
  schedulerReady := false
  processSelfTestPassed := false
  preemptionEnabled := false
  securityBoundariesReady := false
  timerTicks := 0
  serial := []
  lateStores := 0
  starts := 0

theorem sampleMachine_init :
    ∃ k, processInit sampleImages sampleKernel (.before sampleMachine) = .ok (k, true) := by
  have h : (processInit sampleImages sampleKernel (.before sampleMachine)).toOption.any
      (fun r => r.2) = true := by decide +kernel
  obtain ⟨⟨k, done⟩, hinit, hdone⟩ := ok_of_toOption_any h
  change done = true at hdone
  rw [hdone] at hinit
  exact ⟨k, hinit⟩

/-! ## The discipline of process states -/

structure Scheduled (k : Kernel) : Prop where
  bound : k.configuredProcesses ≤ 8
  covered : ∀ i, k.Live i → i.val < k.configuredProcesses
  running : ∀ i, (k.processes i).state = .running ↔ k.currentProcess = some i
  blocked : ∀ i, (k.processes i).state = .blocked →
    (k.processes i).appId ≠ 0 ∧ (k.processes i).inputTail = (k.processes i).inputHead

theorem Initial.scheduled (h : Initial k) : Scheduled k := by
  have hstate : ∀ i : Fin 8, (k.processes i).state = .ready ∨ (k.processes i).state = .unused := by
    intro i
    by_cases hi : i.val < 2
    · exact Or.inl (h.probes i hi)
    · exact Or.inr (h.bare i (Nat.not_lt.mp hi))
  refine ⟨?_, ?_, ?_, ?_⟩
  · rw [h.configured]
    decide
  · intro i hi
    rw [h.configured]
    by_contra hc
    exact hi (h.bare i (Nat.not_lt.mp hc))
  · intro i
    rw [h.current]
    constructor
    · intro hr
      rcases hstate i with hs | hs
      · rw [hs] at hr
        cases hr
      · rw [hs] at hr
        cases hr
    · intro hc
      cases hc
  · intro i hb
    rcases hstate i with hs | hs
    · rw [hs] at hb
      cases hb
    · rw [hs] at hb
      cases hb

/-- A change of one process record outside any dispatch: what the new record has to meet. -/
structure Settled (p : Process) : Prop where
  running : p.state ≠ .running
  blocked : p.state = .blocked → p.appId ≠ 0 ∧ p.inputTail = p.inputHead

theorem Scheduled.settled (h : Scheduled k) (hcur : k.currentProcess = none) (i : Fin 8) :
    Settled (k.processes i) where
  running := by
    intro hr
    have := (h.running i).mp hr
    rw [hcur] at this
    cases this
  blocked := h.blocked i

/-- The discipline outside a dispatch, record by record. -/
theorem scheduled_of_settled (hcur : k.currentProcess = none) (hbound : k.configuredProcesses ≤ 8)
    (hset : ∀ i, Settled (k.processes i))
    (hcov : ∀ i, k.Live i → i.val < k.configuredProcesses) :
    Scheduled k where
  bound := hbound
  covered := hcov
  running := by
    intro i
    rw [hcur]
    exact ⟨fun hr => absurd hr (hset i).running, fun hc => by cases hc⟩
  blocked := fun i => (hset i).blocked

/-- Loading or releasing slot `i`. -/
theorem Scheduled.store (h : Scheduled k) (hcur : k.currentProcess = none)
    (k' : Kernel) (hcur' : k'.currentProcess = none)
    (hother : ∀ j, j ≠ i → k'.processes j = k.processes j) (hset : Settled (k'.processes i))
    (hbound : k'.configuredProcesses ≤ 8)
    (hcov : ∀ j, k.Live j → j ≠ i → j.val < k'.configuredProcesses)
    (hi : k'.Live i → i.val < k'.configuredProcesses) : Scheduled k' := by
  refine scheduled_of_settled hcur' hbound ?_ ?_
  · intro j
    by_cases hj : j = i
    · rw [hj]
      exact hset
    · rw [hother j hj]
      exact h.settled hcur j
  · intro j hlive
    by_cases hj : j = i
    · rw [hj] at hlive ⊢
      exact hi hlive
    · rw [Kernel.Live, hother j hj] at hlive
      exact hcov j hlive hj

theorem settled_of_state (state : ProcessState) (h : p.state = state)
    (hne : state ≠ .running ∧ state ≠ .blocked) : Settled p := by
  refine ⟨?_, ?_⟩
  · rw [h]
    exact hne.1
  · intro hb
    rw [h] at hb
    exact absurd hb hne.2

variable {done : Bool}

/-- A process that has just been loaded, or could not be. -/
theorem settled_of_load (h : p.state = if done then .ready else .unused) : Settled p := by
  cases done with
  | false => exact settled_of_state .unused h (by decide)
  | true => exact settled_of_state .ready h (by decide)

variable {polls : Prop}

/-- A process that has given the processor back. -/
theorem Moves.settled {mem : Mem} {p' : Process} {action : UserAction}
    (h : Moves polls mem p action p') (hne : action ≠ .ret) : Settled p' := by
  cases h with
  | same | poll | present => exact absurd rfl hne
  | yield | preempt => exact settled_of_state .ready rfl (by decide)
  | exit => exact settled_of_state .exited rfl (by decide)
  | wait context deadline happ hempty => exact ⟨fun hc => (by cases hc), fun _ => ⟨happ, hempty⟩⟩
  | fault => exact settled_of_state .faulted rfl (by decide)

/-- A key is refused and nothing changes, or it goes to the queue of a process that listens. -/
theorem processAppInput_cases (appId : UInt32) (key : UInt8) (k : Kernel) :
    (processAppInput appId key k = (k, false)) ∨
    ∃ i, findApp k appId = some i ∧ (k.processes i).listening = true ∧ key ≠ 0 ∧
      (k.processes i).inputHead + 1 ≠ (k.processes i).inputTail ∧
      (processAppInput appId key k).1.processes =
        update k.processes i ((k.processes i).pushKey key) ∧
      SameKernel k (processAppInput appId key k).1 ∧ (processAppInput appId key k).2 = true := by
  unfold processAppInput
  split
  · exact Or.inl rfl
  · next i hi =>
    split
    · exact Or.inl rfl
    · next hgo =>
      rw [not_or, not_or, Bool.not_eq_false] at hgo
      exact Or.inr ⟨i, hi, hgo.1, hgo.2.1, hgo.2.2, rfl, rfl, rfl⟩

theorem listening_state (h : p.listening = true) : p.state = .ready ∨ p.state = .blocked := by
  unfold Process.listening at h
  rw [Bool.and_eq_true, Bool.or_eq_true, decide_eq_true_eq, decide_eq_true_eq] at h
  exact h.2

theorem listening_live (h : p.listening = true) : p.state ≠ .unused := by
  rcases listening_state h with hs | hs
  · rw [hs]
    decide
  · rw [hs]
    decide

/-- A process that gets a key is ready, whether it waited or not. -/
theorem pushKey_state (h : p.listening = true) (key : UInt8) : (p.pushKey key).state = .ready := by
  show (if p.state = .blocked then ProcessState.ready else p.state) = .ready
  rcases listening_state h with hs | hs
  · rw [hs]
    rfl
  · rw [if_pos hs]

section Keeps

variable {k' : Kernel} (h : Scheduled k)

include h

theorem Scheduled.enter (hcur : k.currentProcess = none) (hconf : i.val < k.configuredProcesses) :
    Scheduled (k.enter i) := by
  have hself : ((k.enter i).processes i).state = .running :=
    congrArg Process.state (enter_self k i)
  have hother : ∀ j, j ≠ i → (k.enter i).processes j = k.processes j :=
    fun j hj => Kernel.setProcess_of_ne _ _ hj
  refine ⟨h.bound, ?_, ?_, ?_⟩
  · intro j hj
    by_cases hji : j = i
    · rw [hji]
      exact hconf
    · rw [Kernel.Live, hother j hji] at hj
      exact h.covered j hj
  · intro j
    show _ ↔ some i = some j
    by_cases hji : j = i
    · rw [hji, hself]
      exact ⟨fun _ => rfl, fun _ => rfl⟩
    · rw [hother j hji]
      refine ⟨fun hr => absurd hr (h.settled hcur j).running, fun hc => ?_⟩
      exact absurd (Option.some.inj hc).symm hji
  · intro j hb
    by_cases hji : j = i
    · rw [hji, hself] at hb
      cases hb
    · rw [hother j hji] at hb ⊢
      exact h.blocked j hb

/-- One event of the process that runs. -/
theorem Scheduled.user (hcur : k.currentProcess = some i) (hs : UserStep polls k i .ret k') :
    Scheduled k' := by
  have hstate : ∀ j, (k'.processes j).state = (k.processes j).state := by
    intro j
    by_cases hji : j = i
    · rw [hji]
      exact hs.moves.keeps_state
    · rw [hs.others j hji]
  refine ⟨?_, ?_, ?_, ?_⟩
  · rw [hs.kernel.configured]
    exact h.bound
  · intro j hj
    rw [Kernel.Live, hstate j] at hj
    rw [hs.kernel.configured]
    exact h.covered j hj
  · intro j
    rw [hstate j, hs.kernel.current]
    exact h.running j
  · intro j hb
    by_cases hji : j = i
    · rw [hstate j, hji, (h.running i).mpr hcur] at hb
      cases hb
    · rw [hs.others j hji] at hb ⊢
      exact h.blocked j hb

theorem Scheduled.leave {action : UserAction} (hcur : k.currentProcess = some i)
    (hconf : i.val < k.configuredProcesses) (hs : UserStep polls k i action k')
    (hne : action ≠ .ret) : Scheduled k'.leave := by
  have hconf' := hs.kernel.configured
  refine scheduled_of_settled rfl ?_ ?_ ?_
  · show k'.configuredProcesses ≤ 8
    rw [hconf']
    exact h.bound
  · intro j
    show Settled (k'.processes j)
    by_cases hji : j = i
    · rw [hji]
      exact hs.moves.settled hne
    · rw [hs.others j hji]
      refine ⟨fun hr => hji ?_, h.blocked j⟩
      have := (h.running j).mp hr
      rw [hcur] at this
      exact (Option.some.inj this).symm
  · intro j hj
    show j.val < k'.configuredProcesses
    rw [hconf']
    by_cases hji : j = i
    · rw [hji]
      exact hconf
    · change k'.Live j at hj
      rw [Kernel.Live, hs.others j hji] at hj
      exact h.covered j hj

section

variable (hcur : k.currentProcess = none)

include hcur

/-- Records change one by one, outside any dispatch. -/
theorem Scheduled.pointwise (hcur' : k'.currentProcess = none)
    (hconf : k'.configuredProcesses = k.configuredProcesses)
    (hp : ∀ i, Settled (k.processes i) → Settled (k'.processes i))
    (hlive : ∀ i, k'.Live i → k.Live i) :
    Scheduled k' := by
  refine scheduled_of_settled hcur' (hconf ▸ h.bound) (fun i => hp i (h.settled hcur i)) ?_
  intro i hi
  rw [hconf]
  exact h.covered i (hlive i hi)

theorem Scheduled.wake : Scheduled (wakeBlockedProcesses k) := by
  refine h.pointwise hcur hcur rfl ?_ ?_
  · intro i hi
    by_cases hw : k.wakes i = true
    · rw [wake_woken hw]
      exact settled_of_state .ready rfl (by decide)
    · rwa [wake_kept hw]
  · intro i hi hun
    apply hi
    rwa [wake_kept (by simp [Kernel.wakes, hun])]

theorem Scheduled.setActive (appId : UInt32) : Scheduled (processAppSetActive k appId) := by
  have hsame : ∀ i, ((processAppSetActive k appId).processes i).state = (k.processes i).state ∧
      ((processAppSetActive k appId).processes i).appId = (k.processes i).appId ∧
      ((processAppSetActive k appId).processes i).inputTail = (k.processes i).inputTail ∧
      ((processAppSetActive k appId).processes i).inputHead = (k.processes i).inputHead := by
    intro i
    unfold processAppSetActive
    dsimp only
    split
    · exact ⟨rfl, rfl, rfl, rfl⟩
    · exact ⟨rfl, rfl, rfl, rfl⟩
  refine h.pointwise hcur hcur rfl ?_ ?_
  · intro i hi
    obtain ⟨h1, h2, h3, h4⟩ := hsame i
    refine ⟨?_, ?_⟩
    · rw [h1]
      exact hi.running
    · rw [h1, h2, h3, h4]
      exact hi.blocked
  · intro i hi
    rw [Kernel.Live, (hsame i).1] at hi
    exact hi

theorem Scheduled.input (appId : UInt32) (key : UInt8) :
    Scheduled (processAppInput appId key k).1 := by
  rcases processAppInput_cases appId key k with heq | ⟨i, -, hlisten, -, -, hp, hk, -⟩
  · rw [heq]
    exact h
  · have hready := pushKey_state hlisten key
    refine h.store hcur _ (i := i) (hk.current.trans hcur) ?_ ?_ ?_ ?_ ?_
    · intro j hj
      rw [hp, update_of_ne hj]
    · rw [hp, update_self]
      exact settled_of_state .ready hready (by decide)
    · rw [hk.configured]
      exact h.bound
    · intro j hj _
      rw [hk.configured]
      exact h.covered j hj
    · intro _
      rw [hk.configured]
      exact h.covered i (listening_live hlisten)

theorem Scheduled.loadFailed {outcome : Except Nat (Loading × Bool)}
    (hload : k.loaded i outcome = .ok (k', false)) (hstate : (k'.processes i).state = .unused) :
    Scheduled k' := by
  have hother := fun j hj => @loaded_of_ne _ _ _ _ _ j hload hj
  obtain ⟨l, -, hk'⟩ := loaded_eq hload
  have hconf : k'.configuredProcesses = k.configuredProcesses := by rw [hk']; rfl
  refine h.store hcur k' (by rw [hk']; exact hcur) hother (settled_of_state .unused hstate
    (by decide))
    (hconf ▸ h.bound) ?_ fun hl => absurd hstate hl
  intro j hj _
  rw [hconf]
  exact h.covered j hj

end

theorem Scheduled.loadProbe {image : List UInt8} (preemption : Bool)
    (hcur : k.currentProcess = none) (hbare : Bare k)
    (hload : k.loadProbe processTestSlot image = .ok (k', done)) :
    Scheduled (if done then k'.coverTest preemption else k') := by
  have hstate := state_of_record (loadProbe_record (hbare _ (Nat.le_refl 2)) hload)
  have hset := settled_of_load hstate
  have hother := fun j hj => @loaded_of_ne _ _ _ _ _ j hload hj
  obtain ⟨l, -, hk'⟩ := loaded_eq hload
  have hcur' : k'.currentProcess = none := by rw [hk']; exact hcur
  cases done with
  | false => exact h.loadFailed hcur hload hstate
  | true =>
    refine h.store hcur (k'.coverTest preemption) hcur' hother hset (by decide : 3 ≤ 8) ?_ ?_
    · -- only the probes are there
      intro j hj _
      show j.val < 3
      by_contra hc
      exact hj (hbare j (by omega))
    · intro _
      show 2 < 3
      decide

theorem Scheduled.loadApp {index : Fin 3} (hcur : k.currentProcess = none)
    (hfree : (k.processes (catalogSlot index)).state = .unused)
    (hload : k.loadApp images index = .ok (k', done)) :
    Scheduled (if done then k'.cover (catalogSlot index) else k') := by
  have hstate := state_of_record (loadApp_record hfree hload)
  have hset := settled_of_load hstate
  have hother := fun j hj => @loaded_of_ne _ _ _ _ _ j hload hj
  obtain ⟨l, -, hk'⟩ := loaded_eq hload
  have hcur' : k'.currentProcess = none := by rw [hk']; exact hcur
  have hconf' : k'.configuredProcesses = k.configuredProcesses := by rw [hk']; rfl
  have hbound := h.bound
  cases done with
  | false => exact h.loadFailed hcur hload hstate
  | true =>
    have hslot := (catalogSlot index).isLt
    have hcover : (k'.cover (catalogSlot index)).configuredProcesses =
        if k.configuredProcesses ≤ (catalogSlot index).val then (catalogSlot index).val + 1
        else k.configuredProcesses := by
      rw [← hconf']
      rfl
    refine h.store hcur (k'.cover (catalogSlot index)) hcur' hother hset ?_ ?_ ?_
    · rw [hcover]
      split
      · exact hslot
      · exact hbound
    · intro j hj _
      have := h.covered j hj
      rw [hcover]
      split
      · omega
      · exact this
    · intro _
      rw [hcover]
      split
      · exact Nat.lt_succ_self _
      · omega

theorem Scheduled.release (hcur : k.currentProcess = none) (i : Fin 8) :
    Scheduled (k.release i) := by
  refine h.store hcur (k.release i) hcur (fun j hj => store_of_ne _ _ hj) ?_ h.bound
    (fun j hj _ => h.covered j hj) ?_
  · exact settled_of_state .unused (congrArg Process.state (store_same ..)) (by decide)
  · intro hl
    exact absurd (congrArg Process.state (store_same ..)) hl

/-- **Every step keeps the discipline.** -/
theorem Scheduled.step (hs : Step images k k') : Scheduled k' := by
  cases hs with
  | enter i hcur hconf _ => exact h.enter hcur hconf
  | user i event hrun hev =>
    exact h.user (running_cases hrun).1 (userEvent_step hrun images event _ hev)
  | leave i event action hrun hev hne =>
    obtain ⟨hcur, hconf⟩ := running_cases hrun
    exact h.leave hcur hconf (userEvent_step hrun images event _ hev) hne
  | wake hcur => exact h.wake hcur
  | setActive appId hcur => exact h.setActive hcur appId
  | input appId key hcur => exact h.input hcur appId key
  | timerTick | cursor => exact ⟨h.bound, h.covered, h.running, h.blocked⟩
  | loadProbe image preemption done hcur hbare hload =>
    exact h.loadProbe preemption hcur hbare hload
  | loadApp index done hcur hfree hload => exact h.loadApp hcur hfree hload
  | release i hcur _ _ => exact h.release hcur i
  | bare hcur hbare =>
    refine ⟨(by decide : processProbeCount ≤ 8), ?_, h.running, h.blocked⟩
    intro i hi
    by_contra hc
    exact hi (hbare i (Nat.not_lt.mp hc))

end Keeps

theorem Reachable.scheduled (h : Reachable images paging k₀ k) : Scheduled k :=
  Reachable.invariant Scheduled (fun _ hi => (processInit_initial hi).scheduled)
    (fun _ _ hk hs => hk.step hs) h

/-- Invariants that need the discipline. -/
theorem Reachable.scheduled_invariant (inv : Kernel → Prop)
    (hinit : ∀ k, processInit images paging k₀ = .ok (k, true) → inv k)
    (hstep : ∀ k k', Scheduled k → inv k → Step images k k' → inv k')
    (h : Reachable images paging k₀ k) : inv k :=
  (Reachable.invariant (fun k => Scheduled k ∧ inv k)
    (fun k hk => ⟨(processInit_initial hk).scheduled, hinit k hk⟩)
    (fun _ _ hk hs => ⟨hk.1.step hs, hstep _ _ hk.1 hk.2 hs⟩) h).2

end ArgusOs.Runtime
