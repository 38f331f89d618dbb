/-
  What can happen to one process record, and what follows for process states.

  `Change` lists every way a step can change the record in a slot. From it comes the life of
  a record (`process_state_machine`: who runs, that an ended process stays ended until its
  slot is released, that process ids are distinct).
-/
import ArgusOs.Runtime.Reachable

namespace ArgusOs.Runtime

open Lib Memory Capability Ipc Elf Function

variable {mem : Mem} {i : Fin 8} {appId : UInt32} {p p' : Process} {action : UserAction}
  {k k' : Kernel} {images : Images}

/-- The process that belongs into a slot: a probe, or the app of the catalog entry. -/
def Belongs (i : Fin 8) (appId : UInt32) : Prop :=
  (i.val ≤ 2 ∧ appId = 0) ∨ ∃ index, i = catalogSlot index ∧ appId = catalogAppId index

/-- What a step from `k` to `k'` can do to the record in slot `i`. -/
inductive Change (images : Images) (k k' : Kernel) (i : Fin 8) (p : Process) : Process → Prop
  | same : Change images k k' i p p
  | run (h : p.state = .ready) : Change images k k' i p { p with state := .running }
  | moves {event : UserEvent} {action : UserAction} {p' : Process} (hrun : k.running = some i)
      (hstate : p.state = .running) (h : Moves event.polls k.phys.mem p action p')
      (hret : action = .ret → userEvent images k event = .ok (k', .ret)) :
      Change images k k' i p p'
  | wake (h : p.state = .blocked) : Change images k k' i p { p with state := .ready }
  | active (online : Bool) (h : online = true → k'.focusedAppId ≠ 0) :
      Change images k k' i p { p with active := p.appId = k'.focusedAppId && online }
  | key (appId : UInt32) (key : UInt8) (happ : findApp k appId = some i)
      (hinput : processAppInput appId key k = (k', true)) (hlisten : p.listening = true)
      (hkey : key ≠ 0) (hroom : p.inputHead + 1 ≠ p.inputTail) :
      Change images k k' i p (p.pushKey key)
  | load {pid : UInt64} {appId : UInt32} {p' : Process} (hfree : p.state = .unused)
      (hcount : k'.starts = k.starts + 1) (hplace : Belongs i appId) (h : Born pid appId p') :
      Change images k k' i p p'
  | failed {p' : Process} (hfree : p.state = .unused) (h : p'.state = .unused) :
      Change images k k' i p p'
  | release : Change images k k' i p .zero

/-- A load, seen from slot `i`; `k'` is the kernel after the process has been counted. -/
theorem change_of_loaded {j : Fin 8} {pid : UInt64} {done : Bool} {k₁ : Kernel}
    {outcome : Except Nat (Loading × Bool)} (hfree : (k.processes j).state = .unused)
    (hplace : Belongs j appId) (hload : k.loaded j outcome = .ok (k₁, done))
    (h : if done then Born pid appId (k₁.processes j) else (k₁.processes j).state = .unused)
    (hprocesses : k'.processes = k₁.processes) (hstarts : k'.starts = k₁.starts) (i : Fin 8) :
    Change images k k' i (k.processes i) (k'.processes i) := by
  rw [hprocesses]
  by_cases hi : i = j
  · subst hi
    cases done with
    | false => exact .failed hfree h
    | true =>
      obtain ⟨l, -, rfl⟩ := loaded_eq hload
      exact .load hfree hstarts hplace h
  · rw [loaded_of_ne hload hi]
    exact .same

variable {polls : Prop}

/-- There is no app zero. -/
theorem processAppOnline_ne_zero (k : Kernel) (h : processAppOnline k appId = true) :
    appId ≠ 0 := by
  rintro rfl
  cases h

theorem wakes_blocked (h : k.wakes i = true) : (k.processes i).state = .blocked := by
  simp only [Kernel.wakes, Bool.and_eq_true, decide_eq_true_eq] at h
  exact h.1.2

/-- **Inversion of steps, record by record.** -/
theorem Step.change (hk : Scheduled k) (hs : Step images k k') (i : Fin 8) :
    Change images k k' i (k.processes i) (k'.processes i) := by
  cases hs with
  | enter j _ _ hready =>
    by_cases hj : i = j
    · rw [hj, enter_self]
      exact .run hready
    · have : (k.enter j).processes i = k.processes i := Kernel.setProcess_of_ne _ _ hj
      rw [this]
      exact .same
  | user j event hrun hev =>
    have hu := userEvent_step hrun images event _ hev
    by_cases hj : i = j
    · subst hj
      exact .moves hrun ((hk.running i).mpr (running_cases hrun).1) hu.moves fun _ => hev
    · rw [hu.others i hj]
      exact .same
  | leave j event action hrun hev hne =>
    have hu := userEvent_step hrun images event _ hev
    by_cases hj : i = j
    · subst hj
      exact .moves hrun ((hk.running i).mpr (running_cases hrun).1) hu.moves
        fun hret => absurd hret hne
    · have := hu.others i hj
      exact this ▸ .same
  | wake _ =>
    by_cases hw : k.wakes i = true
    · rw [wake_woken hw]
      exact .wake (wakes_blocked hw)
    · rw [wake_kept hw]
      exact .same
  | setActive appId _ =>
    show Change images k _ i _ (if _ then _ else _)
    split
    · exact .active _ (processAppOnline_ne_zero k)
    · exact .same
  | input appId key _ =>
    rcases processAppInput_cases appId key k with
      heq | ⟨j, happ, hlisten, hkey, hroom, hp, -, htrue⟩
    · rw [heq]
      exact .same
    · rw [hp]
      by_cases hj : i = j
      · subst hj
        rw [update_self]
        exact .key appId key happ (Prod.ext rfl htrue) hlisten hkey hroom
      · rw [update_of_ne hj]
        exact .same
  | timerTick | cursor | bare _ _ => exact .same
  | loadProbe image preemption done hcur hbare hload =>
    have hfree := hbare processTestSlot (Nat.le_refl 2)
    have hrecord := loadProbe_record hfree hload
    cases done with
    | false | true =>
      refine change_of_loaded hfree (Or.inl ⟨Nat.le_refl 2, rfl⟩) hload hrecord ?_ ?_ i
      · rfl
      · rfl
  | loadApp index done hcur hfree hload =>
    have hrecord := loadApp_record hfree hload
    cases done with
    | false | true =>
      refine change_of_loaded hfree (Or.inr ⟨index, rfl, rfl⟩) hload hrecord ?_ ?_ i
      · rfl
      · rfl
  | release j _ _ _ =>
    by_cases hj : i = j
    · rw [hj]
      have : (k.release j).processes j = .zero := store_same ..
      rw [this]
      exact .release
    · have : (k.release j).processes i = k.processes i := store_of_ne _ _ hj
      rw [this]
      exact .same

/-! ## Which process a slot holds -/

/-- Every process that is there belongs where it is. -/
def Placed (k : Kernel) : Prop :=
  ∀ i, k.Live i → Belongs i (k.processes i).appId

theorem Moves.live (h : Moves polls mem p action p') :
    p'.appId = p.appId ∧ p'.pid = p.pid ∧
      (p.state ≠ .unused → p'.state ≠ .unused) := by
  cases h with
  | same | poll | present => exact ⟨rfl, rfl, id⟩
  | yield | exit | wait | preempt | fault => exact ⟨rfl, rfl, fun _ hc => by cases hc⟩

/-- Unless it is loaded, a process that is there was there before, under the same ids. -/
theorem Change.identity (h : Change images k k' i p p') (hlive : p'.state ≠ .unused) :
    (p.state ≠ .unused ∧ p'.appId = p.appId ∧ p'.pid = p.pid) ∨
      (k'.starts = k.starts + 1 ∧ ∃ pid appId, Belongs i appId ∧ Born pid appId p') := by
  cases h with
  | same | active => exact Or.inl ⟨hlive, rfl, rfl⟩
  | run h | wake h => exact Or.inl ⟨by rw [h]; decide, rfl, rfl⟩
  | moves _ hstate h => exact Or.inl ⟨by rw [hstate]; decide, h.live.1, h.live.2.1⟩
  | key _ _ _ _ hlisten => exact Or.inl ⟨listening_live hlisten, rfl, rfl⟩
  | load _ hcount hplace h => exact Or.inr ⟨hcount, _, _, hplace, h⟩
  | failed _ h => exact absurd h hlive
  | release => exact absurd rfl hlive

theorem Born.ids {pid : UInt64} (h : Born pid appId p) : p.pid = pid ∧ p.appId = appId :=
  ⟨congrArg Process.pid h.core, congrArg Process.appId h.core⟩

theorem Placed.change (h : Placed k)
    (hc : ∀ i, Change images k k' i (k.processes i) (k'.processes i)) : Placed k' := by
  intro i hlive
  rcases (hc i).identity hlive with ⟨hold, happ, -⟩ | ⟨-, pid, appId, hplace, hborn⟩
  · rw [happ]
    exact h i hold
  · rw [hborn.ids.2]
    exact hplace

section Reached

variable {paging : PagingInfo} {k₀ : Kernel}

theorem processInit_born (h : processInit images paging k₀ = .ok (k, true)) (i : Fin 8)
    (hlive : k.Live i) :
    i.val < 2 ∧ Born (UInt64.ofNat (i.val + 1)) 0 (k.processes i) := by
  have hi : i.val < 2 := by
    by_contra hc
    exact hlive ((processInit_initial h).bare i (Nat.not_lt.mp hc))
  exact ⟨hi, processInit_probe h hi⟩

theorem Reachable.placed (h : Reachable images paging k₀ k) : Placed k := by
  refine Reachable.scheduled_invariant Placed ?_ ?_ h
  · intro k hk i hlive
    obtain ⟨hi, hborn⟩ := processInit_born hk i hlive
    exact Or.inl ⟨by omega, hborn.ids.2⟩
  · exact fun k k' hk hplaced hs => hplaced.change fun i => hs.change hk i

end Reached

/-- An app sits behind the probes. -/
theorem Belongs.app (h : Belongs i appId) (happ : appId ≠ 0) : 2 ≤ i.val := by
  rcases h with ⟨-, h0⟩ | ⟨index, rfl, -⟩
  · exact absurd h0 happ
  · exact catalogSlot_ge index

/-! ## Process ids -/

/-- Process ids count the loads, so they are distinct until the count wraps around. -/
structure Numbered (k : Kernel) : Prop where
  next : k.nextPid = UInt64.ofNat (k.starts + 1)
  low : k.starts < 2 ^ 64 → ∀ i, k.Live i →
    (k.processes i).pid.toNat ≤ k.starts
  distinct : k.starts < 2 ^ 64 → ∀ i j, k.Live i →
    k.Live j → (k.processes i).pid = (k.processes j).pid → i = j

/-- No process was loaded. -/
theorem Numbered.keep (h : Numbered k) (hpid : k'.nextPid = k.nextPid)
    (hstarts : k'.starts = k.starts) (hc : ∀ i, k'.Live i →
      k.Live i ∧ (k'.processes i).pid = (k.processes i).pid) :
    Numbered k' where
  next := by rw [hpid, hstarts, h.next]
  low := by
    intro hlt i hi
    rw [hstarts] at hlt ⊢
    rw [(hc i hi).2]
    exact h.low hlt i (hc i hi).1
  distinct := by
    intro hlt i j hi hj heq
    rw [hstarts] at hlt
    rw [(hc i hi).2, (hc j hj).2] at heq
    exact h.distinct hlt i j (hc i hi).1 (hc j hj).1 heq

/-- The process in slot `i` is new, or there is none. -/
theorem Numbered.load (h : Numbered k) (hpid : k'.nextPid = k.nextPid + 1)
    (hstarts : k'.starts = k.starts + 1) (hother : ∀ j, j ≠ i → k'.processes j = k.processes j)
    (hnew : k'.Live i → (k'.processes i).pid = k.nextPid) : Numbered k' := by
  have hnext : k'.starts < 2 ^ 64 → k.nextPid.toNat = k.starts + 1 := by
    intro hlt
    rw [h.next, UInt64.toNat_ofNat']
    exact Nat.mod_eq_of_lt (by omega)
  -- the new id is above every old one
  have hfresh : k'.starts < 2 ^ 64 → ∀ j, j ≠ i → k'.Live j →
      (k'.processes j).pid.toNat < k.nextPid.toNat := by
    intro hlt j hj hlive
    unfold Kernel.Live at hlive
    rw [hother j hj] at hlive ⊢
    have := h.low (by omega) j hlive
    rw [hnext hlt]
    omega
  refine ⟨?_, ?_, ?_⟩
  · rw [hpid, hstarts, h.next, ← UInt64.toNat_inj, UInt64.toNat_add, UInt64.toNat_ofNat',
      UInt64.toNat_ofNat']
    show ((k.starts + 1) % 2 ^ 64 + 1) % 2 ^ 64 = (k.starts + 1 + 1) % 2 ^ 64
    omega
  · intro hlt j hlive
    by_cases hj : j = i
    · rw [hj] at hlive ⊢
      rw [hnew hlive, hnext hlt, hstarts]
    · have := hfresh hlt j hj hlive
      rw [hnext hlt] at this
      omega
  · intro hlt j j' hj hj' heq
    by_cases h1 : j = i
    · by_cases h2 : j' = i
      · rw [h1, h2]
      · have := hfresh hlt j' h2 hj'
        rw [← heq, h1, hnew (h1 ▸ hj)] at this
        exact absurd this (Nat.lt_irrefl _)
    · by_cases h2 : j' = i
      · have := hfresh hlt j h1 hj
        rw [heq, h2, hnew (h2 ▸ hj')] at this
        exact absurd this (Nat.lt_irrefl _)
      · unfold Kernel.Live at hj hj'
        rw [hother j h1] at hj heq
        rw [hother j' h2] at hj' heq
        exact h.distinct (by omega) j j' hj hj' heq

theorem Numbered.loaded {done : Bool} {outcome : Except Nat (Loading × Bool)} (h : Numbered k)
    (hload : k.loaded i outcome = .ok (k', done))
    (hrecord : if done then Born k.nextPid appId (k'.processes i)
      else (k'.processes i).state = .unused) : Numbered k' := by
  obtain ⟨l, -, hk'⟩ := loaded_eq hload
  refine h.load (i := i) (by rw [hk']) (by rw [hk']) ?_ ?_
  · intro j hj
    rw [hk']
    exact store_of_ne _ _ hj
  · intro hlive
    cases done with
    | false => exact absurd hrecord hlive
    | true => exact (Born.ids hrecord).1

theorem Numbered.step (h : Numbered k) (hk : Scheduled k) (hs : Step images k k') :
    Numbered k' := by
  -- outside loads no record can be new
  have hkeep : k'.nextPid = k.nextPid → k'.starts = k.starts → Numbered k' := by
    intro hpid hstarts
    refine h.keep hpid hstarts ?_
    intro i hi
    rcases (hs.change hk i).identity hi with ⟨hlive, -, hp⟩ | ⟨hcount, -⟩
    · exact ⟨hlive, hp⟩
    · omega
  cases hs with
  | enter | wake | setActive | timerTick | cursor | release | bare => exact hkeep rfl rfl
  | user j event hrun hev | leave j event action hrun hev _ =>
    have hu := userEvent_step hrun images event _ hev
    exact hkeep hu.kernel.nextPid hu.kernel.starts
  | input appId key _ =>
    rcases processAppInput_cases appId key k with heq | ⟨j, -, -, -, -, -, hsame, -⟩
    · rw [heq]
      exact h
    · exact hkeep hsame.nextPid hsame.starts
  | loadProbe image preemption done hcur hbare hload =>
    have hn := h.loaded hload (loadProbe_record (hbare _ (Nat.le_refl 2)) hload)
    split
    · exact ⟨hn.next, hn.low, hn.distinct⟩
    · exact hn
  | loadApp index done hcur hfree hload =>
    have hn := h.loaded hload (loadApp_record hfree hload)
    split
    · exact ⟨hn.next, hn.low, hn.distinct⟩
    · exact hn

theorem processInit_numbered {paging : PagingInfo} {k₀ : Kernel}
    (h : processInit images paging k₀ = .ok (k, true)) : Numbered k := by
  have hstart : Numbered (k₀.reset paging) :=
    ⟨rfl, fun _ _ hi => absurd rfl hi, fun _ _ _ hi => absurd rfl hi⟩
  obtain ⟨k₁, k₂, h₁, hfree, h₂, rfl⟩ := processInit_cases h
  have hn₁ := hstart.loaded h₁ (loadProbe_record rfl h₁)
  have hn₁' : Numbered k₁.countProbe := ⟨hn₁.next, hn₁.low, hn₁.distinct⟩
  have hn₂ := hn₁'.loaded h₂ (loadProbe_record hfree h₂)
  exact ⟨hn₂.next, hn₂.low, hn₂.distinct⟩

theorem Reachable.numbered {paging : PagingInfo} {k₀ : Kernel} (h : Reachable images paging k₀ k) :
    Numbered k :=
  Reachable.scheduled_invariant Numbered (fun _ hk => processInit_numbered hk)
    (fun _ _ hk hnumbered hs => hnumbered.step hk hs) h

/-! ## The state machine -/

/-- The process is over. -/
def Process.ended (p : Process) : Prop := p.state = .exited ∨ p.state = .faulted

theorem Process.ended.elim (h : p.ended) {state : ProcessState} (hs : p.state = state)
    (hne : state ≠ .exited ∧ state ≠ .faulted) : False := by
  rcases h with he | he
  · exact hne.1 (hs.symm.trans he)
  · exact hne.2 (hs.symm.trans he)

/-- An ended process stays as it is until its slot is released. -/
theorem Change.ended (h : Change images k k' i p p') (hend : p.ended) :
    p'.state = p.state ∨ p'.state = .unused := by
  cases h with
  | same | active => exact Or.inl rfl
  | run h | wake h => exact (hend.elim h (by decide)).elim
  | moves _ hstate _ => exact (hend.elim hstate (by decide)).elim
  | key _ _ _ _ hlisten =>
    rcases listening_state hlisten with hl | hl
    · exact (hend.elim hl (by decide)).elim
    · exact (hend.elim hl (by decide)).elim
  | load hfree => exact (hend.elim hfree (by decide)).elim
  | failed _ h => exact Or.inr h
  | release => exact Or.inr rfl

/-- Along a run: an ended process is as it was, or its slot has been released in between. -/
theorem ended_until_released (hk : Scheduled k) (hs : Steps images k k')
    (hend : (k.processes i).ended) :
    (k'.processes i).state = (k.processes i).state ∨
      ∃ k₁, Steps images k k₁ ∧ Steps images k₁ k' ∧ (k₁.processes i).state = .unused := by
  induction hs with
  | refl => exact Or.inl rfl
  | tail hrun hstep ih =>
    rename_i k₁ k₂
    rcases ih with hsame | ⟨k₃, h₃, h₃', hun⟩
    · have hend₁ : (k₁.processes i).ended := by
        unfold Process.ended
        rw [hsame]
        exact hend
      have hk₁ := Steps.invariant (fun _ _ h hs => Scheduled.step h hs) hrun hk
      rcases (hstep.change hk₁ i).ended hend₁ with h | h
      · exact Or.inl (h.trans hsame)
      · exact Or.inr ⟨k₂, hrun.tail hstep, .refl, h⟩
    · exact Or.inr ⟨k₃, h₃, h₃'.tail hstep, hun⟩

/-- A dispatch of a process that is ready succeeds, whatever the process does, if it gives the
    processor back at all. -/
theorem dispatchProcess_ready {k₁ : Kernel} {run : List UserEvent}
    (hconf : i.val < k.configuredProcesses) (hready : (k.processes i).state = .ready)
    (hrun : archResumeUser images run (k.enter i) = .ok (k₁, action)) :
    dispatchProcess images i run k = .ok (k₁.leave, true) ∧
      action.state = some (k₁.leave.processes i).state := by
  have hstate := (archResumeUser_steps images run (enter_running hconf) _ hrun).state
  refine ⟨?_, hstate⟩
  unfold dispatchProcess
  rw [if_neg (by rw [not_or, Nat.not_le, not_not]; exact ⟨hconf, hready⟩), hrun]
  show Except.ok (k₁.leave, decide (action.state = some (k₁.processes i).state)) = _
  rw [decide_eq_true hstate]

/-- **The process state machine.** In every reachable state:
    a dispatch of a ready process that gives the processor back returns success with no current
    process, and the process is in the state that goes with its last action;
    a process is running exactly when it is the current one;
    what is not ready is not dispatched, and an ended process stays ended until its slot is
    released;
    only app processes are blocked;
    and the processes that are there have distinct ids, as long as fewer than 2^64 have been
    started. -/
theorem process_state_machine (images : Images) (paging : PagingInfo) (k₀ k : Kernel)
    (h : Reachable images paging k₀ k) :
    (k.currentProcess = none → ∀ i run k₁ action, (k.processes i).state = .ready →
      archResumeUser images run (k.enter i) = .ok (k₁, action) →
      dispatchProcess images i run k = .ok (k₁.leave, true) ∧ k₁.leave.currentProcess = none ∧
        action.state = some (k₁.leave.processes i).state) ∧
    (∀ i, (k.processes i).state = .running ↔ k.currentProcess = some i) ∧
    (∀ i run, (k.processes i).state ≠ .ready → dispatchProcess images i run k = .ok (k, false)) ∧
    (∀ i k', (k.processes i).ended → Steps images k k' →
      (k'.processes i).state = (k.processes i).state ∨
        ∃ k₁, Steps images k k₁ ∧ Steps images k₁ k' ∧ (k₁.processes i).state = .unused) ∧
    (∀ i, (k.processes i).state = .blocked → (k.processes i).appId ≠ 0) ∧
    (k.starts < 2 ^ 64 → ∀ i j, (k.processes i).state ≠ .unused →
      (k.processes j).state ≠ .unused → (k.processes i).pid = (k.processes j).pid → i = j) := by
  have hsched := h.scheduled
  refine ⟨?_, hsched.running, ?_, ?_, fun i hb => (hsched.blocked i hb).1, h.numbered.distinct⟩
  · intro _ i run k₁ action hready hrun
    have hconf := hsched.covered i (by rw [Kernel.Live, hready]; decide)
    obtain ⟨hdis, hstate⟩ := dispatchProcess_ready hconf hready hrun
    exact ⟨hdis, rfl, hstate⟩
  · intro i run hne
    unfold dispatchProcess
    rw [if_pos (Or.inr hne)]
  · intro i k' hend hs
    exact ended_until_released hsched hs hend

/-- A probe on the sample machine that exits at once. -/
theorem process_state_machine_sample :
    ∃ k, Reachable sampleImages sampleKernel (.before sampleMachine) k ∧
      ∃ k₁, archResumeUser sampleImages [.syscall { UserContext.zero with rax := syscallExit }]
          (k.enter 0) = .ok (k₁, .exit) ∧
        dispatchProcess sampleImages 0 [.syscall { UserContext.zero with rax := syscallExit }] k =
          .ok (k₁.leave, true) := by
  obtain ⟨k, hk⟩ := sampleMachine_init
  have hinit := processInit_initial hk
  have hmachine := process_state_machine _ _ _ k (.init hk)
  have hrunning : (k.enter 0).running = some 0 := enter_running (by rw [hinit.configured]; decide)
  obtain ⟨entry, hentry, haction⟩ : ∃ entry, syscallDispatch (k.enter 0)
      { UserContext.zero with rax := syscallExit } = .ok entry ∧ entry.2.2 = .exit :=
    ⟨_, syscallDispatch_eq hrunning _, rfl⟩
  have hresume := @archResumeUser_last sampleImages _ _ [] _
    (userEvent_syscall hentry) (by rw [haction]; decide)
  rw [haction] at hresume
  exact ⟨k, .init hk, _, hresume,
    (hmachine.1 hinit.current 0 _ _ _ (hinit.probes 0 (by decide)) hresume).1⟩

end ArgusOs.Runtime
