/-
  The DMA pages of the AHCI driver.

  A failed initialisation leaves the page allocator as it was. The two pages go back after the
  port has stopped, with one exception: when the drive cannot be identified, `ahci_init` does not
  look at what `stop_port` returns, and a port that does not stop keeps running on pages that are
  free again (`dma_stopped_iff`).

  What a function adds to the record is a triple of `Code.Logs`. Most code only touches registers
  that play no part here (`Within Event.quiet`); what is left are `stop_port`, `start_port` and
  the calls of the page allocator, and the three ways a run can go are `InitOutcome`.
-/
import ArgusOs.Lib.Log
import ArgusOs.Ahci.Driver

namespace ArgusOs.Ahci

open Lib Memory

variable {values : Nat → UInt32} {e : Event} {port : Nat} {mask : UInt32} {ok : Bool}
  {t : List Event} {bus : Bus values} {register : Register}

/-! ## What is asked of a run -/

/-- The command register of the port is written with the bits clear. -/
def clears (port : Nat) (mask : UInt32) : Event → Bool
  | .write register value => register == portCmd port && value &&& mask == 0
  | _ => false

/-- The command register of the port is read with the bits clear. -/
def seesClear (port : Nat) (mask : UInt32) : Event → Bool
  | .read register value => register == portCmd port && value &&& mask == 0
  | _ => false

/-- ST is cleared and the command engine is then seen stopped; FRE is cleared and the FIS
    receive engine is then seen stopped. -/
def stopSequence (port : Nat) : List (Event → Bool) :=
  [clears port cmdSt, seesClear port cmdCr, clears port cmdFre, seesClear port cmdFr]

def EnginesStopped (port : Nat) (events : List Event) : Prop := InOrder (stopSequence port) events

/-- Pages that are given back after `start_port` are given back with the engines stopped since,
    and a failed initialisation leaves the allocator as it was. -/
structure DmaSafe (pmm : Pmm) (run : Bus values × Bool) : Prop where
  stopped : ∀ before port since dma after,
    run.1.record = before ++ .startPort port :: (since ++ .released dma :: after) →
      EnginesStopped port since
  returned : run.2 = false → run.1.pmm = pmm

/-- `stop_port` is called on a started port when `n` registers have been read. -/
def StopAsked (record : List Event) (n : Nat) : Prop :=
  ∃ before port since, record = before ++ .startPort port :: since ∧ .stopPort port n ∈ since

/-- PxCMD as it is read from the `n`-th value on. ST is cleared in that value; of the next
    10,000,000 values one has CR clear; FRE is cleared in the value after it, and one of the
    10,000,000 that follow has FR clear. -/
def PortStops (values : Nat → UInt32) (n : Nat) : Prop :=
  ∃ i < ahciTimeout, values (n + 1 + i) &&& cmdCr = 0 ∧
    (∀ j < i, values (n + 1 + j) &&& cmdCr ≠ 0) ∧
    ∃ j < ahciTimeout, values (n + 1 + i + 2 + j) &&& cmdFr = 0

/-! ## What the values decide -/

@[simp] theorem run_mmioRead (register : Register) (bus : Bus values) :
    (mmioRead register).run bus = ({ bus with
      reads := bus.reads + 1
      record := bus.record ++ [.read register (values bus.reads)] },
      values bus.reads) := rfl

@[simp] theorem run_mark (event : Event) (bus : Bus values) :
    (mark event).run bus = ({ bus with record := bus.record ++ [event] }, ()) := rfl

@[simp] theorem run_mmioWrite (register : Register) (value : UInt32) (bus : Bus values) :
    (mmioWrite register value).run bus =
      ({ bus with record := bus.record ++ [.write register value] }, ()) := rfl

/-- A wait ends with the first value that has the bits clear, if that comes in time. -/
theorem waitClear_run (register : Register) (mask : UInt32) (attempts : Nat) (bus : Bus values) :
    let after := (waitClear register mask attempts).run bus
    (after.2 = true ∧ ∃ i < attempts, after.1.reads = bus.reads + i + 1 ∧
      values (bus.reads + i) &&& mask = 0 ∧ ∀ j < i, values (bus.reads + j) &&& mask ≠ 0) ∨
    (after.2 = false ∧ ∀ i < attempts, values (bus.reads + i) &&& mask ≠ 0) := by
  induction attempts generalizing bus with
  | zero => exact Or.inr ⟨rfl, nofun⟩
  | succ attempts ih =>
    rw [waitClear, Code.run_bind, run_mmioRead]
    dsimp only
    by_cases hclear : values bus.reads &&& mask = 0
    · rw [if_pos hclear]
      exact Or.inl ⟨rfl, 0, Nat.succ_pos _, rfl, hclear, nofun⟩
    · rw [if_neg hclear]
      have hnext : ∀ j, bus.reads + 1 + j = bus.reads + (j + 1) := fun j => by omega
      have hbusy : ∀ i, (∀ j < i, values (bus.reads + 1 + j) &&& mask ≠ 0) →
          ∀ j < i + 1, values (bus.reads + j) &&& mask ≠ 0 := by
        intro i hi j hj
        cases j with
        | zero => exact hclear
        | succ j => exact hnext j ▸ hi j (by omega)
      rcases ih _ with ⟨hok, i, hi, hreads, hzero, hbefore⟩ | ⟨hok, hstuck⟩
      · exact Or.inl ⟨hok, i + 1, by omega, by rw [hreads, hnext], hnext i ▸ hzero,
          hbusy i hbefore⟩
      · exact Or.inr ⟨hok, hbusy attempts hstuck⟩

theorem stopEngines_run (port : Nat) (bus : Bus values) :
    ((stopEngines port).run bus).2 = true ↔ PortStops values bus.reads := by
  simp only [stopEngines, Code.run_bind, run_mmioRead, run_mmioWrite]
  rcases waitClear_run (portCmd port) cmdCr ahciTimeout _ with
    ⟨hok, i, hi, hreads, hclear, hbusy⟩ | ⟨hok, hstuck⟩
  · rw [hok, if_neg (by decide)]
    simp only [Code.run_bind, run_mmioRead, run_mmioWrite]
    rcases waitClear_run (portCmd port) cmdFr ahciTimeout _ with
      ⟨hok', j, hj, -, hclear', -⟩ | ⟨hok', hstuck'⟩
    · rw [hok']
      rw [hreads] at hclear'
      exact iff_of_true rfl ⟨i, hi, hclear, hbusy, j, hj, hclear'⟩
    · rw [hok']
      rw [hreads] at hstuck'
      refine iff_of_false (by decide) ?_
      rintro ⟨i', _, hclear', hbusy', j, hj, hzero⟩
      rcases Nat.lt_trichotomy i i' with hlt | rfl | hlt
      · exact hbusy' i hlt hclear
      · exact hstuck' j hj hzero
      · exact hbusy i' hlt hclear'
  · rw [hok, if_pos rfl]
    refine iff_of_false Bool.false_ne_true ?_
    rintro ⟨i, hi, hclear, -⟩
    exact hstuck i hi hclear

/-! ## The record of each function -/

section Record

variable {α β : Type} {pmm : Pmm}

abbrev Logs (values : Nat → UInt32) (pmm : Pmm) (c : Code (Bus values) α)
    (post : List Event → Pmm → α → Prop) : Prop :=
  Code.Logs Bus.record Bus.pmm pmm c post

theorem mmioRead_logs (register : Register) :
    Logs values pmm (mmioRead register) fun t pmm' value =>
      pmm' = pmm ∧ t = [.read register value] :=
  fun _ hbus => ⟨_, rfl, hbus, rfl⟩

theorem mark_logs (event : Event) :
    Logs values pmm (mark event) fun t pmm' _ => pmm' = pmm ∧ t = [event] :=
  fun _ hbus => ⟨_, rfl, hbus, rfl⟩

theorem mmioWrite_logs (register : Register) (value : UInt32) :
    Logs values pmm (mmioWrite register value) fun t pmm' _ =>
      pmm' = pmm ∧ t = [.write register value] :=
  mark_logs _

theorem pmmAlloc_logs (count : Nat) :
    Logs values pmm (pmmAlloc count) fun t pmm' dma =>
      pmmAllocPages pmm count = (pmm', dma) ∧ t = [.allocated dma] := by
  rintro bus rfl
  exact ⟨_, rfl, rfl, rfl⟩

theorem pmmRelease_logs (address : UInt64) (count : Nat) :
    Logs values pmm (pmmRelease address count) fun t pmm' _ =>
      pmm' = (pmmReleasePages pmm address count).1 ∧ t = [.released address] := by
  rintro bus rfl
  exact ⟨_, rfl, rfl, rfl⟩

/-- What `wait_clear` reads: the bits set each time, until they are clear or it gives up. -/
inductive WaitTrace (register : Register) (mask : UInt32) : List Event → Bool → Prop
  | gaveUp : WaitTrace register mask [] false
  | clear {value : UInt32} (h : value &&& mask = 0) :
    WaitTrace register mask [.read register value] true
  | busy {value : UInt32} {t : List Event} {ok : Bool} (h : value &&& mask ≠ 0)
    (rest : WaitTrace register mask t ok) : WaitTrace register mask (.read register value :: t) ok

theorem waitClear_logs (register : Register) (mask : UInt32) (attempts : Nat) :
    Logs values pmm (waitClear register mask attempts) fun t pmm' ok =>
      pmm' = pmm ∧ WaitTrace register mask t ok := by
  induction attempts with
  | zero => exact Code.Logs.pure ⟨rfl, .gaveUp⟩
  | succ attempts ih =>
    refine (mmioRead_logs register).bind ?_
    rintro _ _ value ⟨rfl, rfl⟩
    split
    · next h => exact Code.Logs.pure ⟨rfl, .clear h⟩
    · next h =>
      refine ih.mono ?_
      rintro t _ ok ⟨rfl, ht⟩
      exact ⟨rfl, .busy h ht⟩

theorem WaitTrace.reads (h : WaitTrace register mask t ok) :
    ∀ e ∈ t, ∃ value, e = .read register value := by
  induction h with
  | gaveUp => exact fun e he => nomatch he
  | clear _ => exact fun e he => ⟨_, List.mem_singleton.mp he⟩
  | busy _ _ ih =>
    intro e he
    rcases List.mem_cons.mp he with rfl | he
    · exact ⟨_, rfl⟩
    · exact ih e he

/-- A wait passes the test for what it waits for exactly if it succeeds. -/
theorem WaitTrace.remaining (h : WaitTrace (portCmd port) mask t ok) (tests : List (Event → Bool)) :
    remaining (seesClear port mask :: tests) t =
      if ok then tests else seesClear port mask :: tests := by
  induction h with
  | gaveUp => rfl
  | clear h =>
    rw [remaining_cons, passTest_pass (by simp [seesClear, h])]
    rfl
  | busy h _ ih =>
    rw [remaining_cons, passTest_skip (by simp [seesClear, h])]
    exact ih

/-! ## Code that only makes events of a kind -/

def Within (values : Nat → UInt32) (kind : Event → Bool) (c : Code (Bus values) α) : Prop :=
  ∀ pmm, Logs values pmm c fun t pmm' _ => pmm' = pmm ∧ ∀ e ∈ t, kind e = true

variable {kind : Event → Bool}

theorem Within.pure (value : α) : Within values kind (Pure.pure value) :=
  fun _ => Code.Logs.pure ⟨rfl, fun _ he => nomatch he⟩

variable {c : Code (Bus values) α}

theorem Within.bind {k : α → Code (Bus values) β} (hc : Within values kind c)
    (hk : ∀ a, Within values kind (k a)) : Within values kind (c >>= k) := by
  intro pmm
  refine (hc pmm).bind ?_
  rintro t _ a ⟨rfl, ht⟩
  refine (hk a _).mono ?_
  rintro t' _ b ⟨rfl, ht'⟩
  exact ⟨rfl, List.forall_mem_append.mpr ⟨ht, ht'⟩⟩

theorem Within.mono {kind' : Event → Bool} (hc : Within values kind c)
    (h : ∀ e, kind e = true → kind' e = true) : Within values kind' c := by
  intro pmm
  refine (hc pmm).mono ?_
  rintro t _ a ⟨rfl, ht⟩
  exact ⟨rfl, fun e he => h e (ht e he)⟩

def Register.isCommand : Register → Bool
  | .hba _ => false
  | .port _ offset => offset == 0x18

/-- An access to a register that is not the command register of a port. -/
def Event.quiet : Event → Bool
  | .read register _ | .write register _ => !register.isCommand
  | _ => false

def Event.isStart : Event → Bool
  | .startPort _ => true
  | _ => false

def Event.isRelease : Event → Bool
  | .released _ => true
  | _ => false

theorem Event.quiet_not_start (h : e.quiet = true) : e.isStart = false := by
  cases e <;> first | rfl | cases h

theorem Event.quiet_not_release (h : e.quiet = true) : e.isRelease = false := by
  cases e <;> first | rfl | cases h

theorem read_quiet (h : register.isCommand = false) :
    Within values Event.quiet (mmioRead register) := by
  intro pmm
  refine (mmioRead_logs register).mono ?_
  rintro _ _ value ⟨rfl, rfl⟩
  refine ⟨rfl, List.forall_mem_singleton.mpr ?_⟩
  rw [Event.quiet, h]
  rfl

theorem write_quiet (h : register.isCommand = false) (value : UInt32) :
    Within values Event.quiet (mmioWrite register value) := by
  intro pmm
  refine (mmioWrite_logs register value).mono ?_
  rintro _ _ _ ⟨rfl, rfl⟩
  refine ⟨rfl, List.forall_mem_singleton.mpr ?_⟩
  rw [Event.quiet, h]
  rfl

theorem waitClear_quiet (h : register.isCommand = false) (mask : UInt32) (attempts : Nat) :
    Within values Event.quiet (waitClear register mask attempts) := by
  induction attempts with
  | zero => exact .pure _
  | succ attempts ih =>
    refine (read_quiet h).bind fun value => ?_
    split
    · exact .pure _
    · exact ih

theorem claimController_quiet : Within values Event.quiet claimController := by
  refine (read_quiet rfl).bind fun cap2 => ?_
  split
  · exact .pure _
  · exact (read_quiet rfl).bind fun _ => (write_quiet rfl _).bind fun _ => waitClear_quiet rfl _ _

theorem sataPortPresent_quiet (port : Nat) : Within values Event.quiet (sataPortPresent port) := by
  refine (read_quiet rfl).bind fun status => ?_
  split
  · exact (read_quiet rfl).bind fun _ => .pure _
  · exact .pure _

theorem findPort_quiet (implemented : UInt32) (left candidate : Nat) :
    Within values Event.quiet (findPort implemented left candidate) := by
  induction left generalizing candidate with
  | zero => exact .pure _
  | succ left ih =>
    unfold findPort
    split
    · exact ih _
    · refine (sataPortPresent_quiet candidate).bind fun present => ?_
      split
      · exact .pure _
      · exact ih _

theorem awaitCommand_quiet (port attempts : Nat) :
    Within values Event.quiet (awaitCommand port attempts) := by
  induction attempts with
  | zero => exact .pure _
  | succ attempts ih =>
    refine (read_quiet rfl).bind fun interruptStatus => ?_
    split
    · exact .pure _
    · refine (read_quiet rfl).bind fun issued => ?_
      split
      · exact (read_quiet rfl).bind fun _ => .pure _
      · exact ih

theorem slotBusy_quiet (port : Nat) : Within values Event.quiet (slotBusy port) := by
  refine (read_quiet rfl).bind fun active => ?_
  split
  · exact .pure _
  · exact (read_quiet rfl).bind fun _ => .pure _

theorem issueCommand_quiet (port : Nat) (online : Bool) (command : UInt8) :
    Within values Event.quiet (issueCommand port online command) := by
  unfold issueCommand
  split
  · exact .pure _
  · refine (waitClear_quiet rfl _ _).bind fun ready => ?_
    split
    · exact .pure _
    · refine (slotBusy_quiet port).bind fun busy => ?_
      split
      · exact .pure _
      · exact (write_quiet rfl _).bind fun _ => (write_quiet rfl _).bind fun _ =>
          (write_quiet rfl _).bind fun _ => awaitCommand_quiet port _

theorem identifySectorCount_quiet (port : Nat) (data : Nat → UInt8) :
    Within values Event.quiet (identifySectorCount port data) := by
  refine (issueCommand_quiet port false ataIdentifyDevice).bind fun answered => ?_
  split
  · exact .pure _
  · exact .pure _

theorem programPort_quiet (port : Nat) (dma : UInt64) :
    Within values Event.quiet (programPort port dma) :=
  (write_quiet rfl _).bind fun _ => (write_quiet rfl _).bind fun _ =>
    (write_quiet rfl _).bind fun _ => (write_quiet rfl _).bind fun _ =>
      (write_quiet rfl _).bind fun _ => (write_quiet rfl _).bind fun _ => write_quiet rfl _

/-! ## Stopping a port -/

/-- Every test of the stop sequence is about the command register. -/
theorem stopSequence_idle {test : Event → Bool} (h : test ∈ stopSequence port)
    (he : ∀ value, e ≠ .read (portCmd port) value ∧ e ≠ .write (portCmd port) value) :
    test e = false := by
  have hclears : ∀ mask, clears port mask e = false := by
    intro mask
    cases e with
    | write register value =>
      have hne : register ≠ portCmd port := fun heq => (he value).2 (by rw [heq])
      simp [clears, hne]
    | _ => rfl
  have hsees : ∀ mask, seesClear port mask e = false := by
    intro mask
    cases e with
    | read register value =>
      have hne : register ≠ portCmd port := fun heq => (he value).1 (by rw [heq])
      simp [seesClear, hne]
    | _ => rfl
  simp only [stopSequence, List.mem_cons, List.not_mem_nil, or_false] at h
  rcases h with rfl | rfl | rfl | rfl
  · exact hclears _
  · exact hsees _
  · exact hclears _
  · exact hsees _

theorem quiet_idle {test : Event → Bool} (h : test ∈ stopSequence port) (he : e.quiet = true) :
    test e = false := by
  refine stopSequence_idle h fun value => ⟨?_, ?_⟩
  · rintro rfl
    cases he
  · rintro rfl
    cases he

/-- An access to the command register of the port. -/
def Event.OnCommand (port : Nat) (e : Event) : Prop :=
  ∃ value, e = .read (portCmd port) value ∨ e = .write (portCmd port) value

theorem Event.OnCommand.read (port : Nat) (value : UInt32) :
    Event.OnCommand port (.read (portCmd port) value) := ⟨value, .inl rfl⟩

theorem Event.OnCommand.write (port : Nat) (value : UInt32) :
    Event.OnCommand port (.write (portCmd port) value) := ⟨value, .inr rfl⟩

/-- The accesses of `stop_port`, and whether they stop the engines. -/
structure StopAccesses (port : Nat) (t : List Event) (ok : Bool) : Prop where
  accesses : ∀ e ∈ t, e.OnCommand port
  engines : remaining (stopSequence port) t = [] ↔ ok = true

theorem WaitTrace.accesses (h : WaitTrace (portCmd port) mask t ok) :
    ∀ e ∈ t, e.OnCommand port := by
  intro e he
  obtain ⟨value, rfl⟩ := h.reads e he
  exact .read port value

theorem clears_masked (port : Nat) (mask command : UInt32) :
    clears port mask (.write (portCmd port) (command &&& ~~~mask)) = true := by
  simp [clears, UInt32.and_assoc]

theorem stopEngines_logs (port : Nat) :
    Logs values pmm (stopEngines port) fun t pmm' ok => pmm' = pmm ∧ StopAccesses port t ok := by
  refine (mmioRead_logs _).bind ?_
  rintro _ _ command ⟨rfl, rfl⟩
  refine (mmioWrite_logs _ _).bind ?_
  rintro _ _ _ ⟨rfl, rfl⟩
  refine (waitClear_logs _ _ _).bind ?_
  rintro wait _ idle ⟨rfl, hwait⟩
  -- clearing ST passes the first test, and the wait the second if it succeeds
  have hpassed : ∀ rest, remaining (stopSequence port)
      ([.read (portCmd port) command] ++ ([.write (portCmd port) (command &&& ~~~cmdSt)] ++
        (wait ++ rest))) =
      remaining (if idle then [clears port cmdFre, seesClear port cmdFr]
        else [seesClear port cmdCr, clears port cmdFre, seesClear port cmdFr]) rest := by
    intro rest
    rw [List.singleton_append, List.singleton_append, remaining_cons, stopSequence,
      passTest_skip (by simp [clears]), remaining_cons, passTest_pass (clears_masked ..),
      remaining_append, hwait.remaining]
  have hstart : ∀ rest, (∀ e ∈ rest, Event.OnCommand port e) →
      ∀ e ∈ [.read (portCmd port) command] ++ ([.write (portCmd port) (command &&& ~~~cmdSt)] ++
        (wait ++ rest)), Event.OnCommand port e := by
    intro rest hrest
    simp only [List.forall_mem_append, List.forall_mem_singleton]
    exact ⟨.read port _, .write port _, hwait.accesses, hrest⟩
  cases idle with
  | false =>
    refine Code.Logs.pure ⟨rfl, ?_, ?_⟩
    · exact hstart [] fun e he => nomatch he
    · refine iff_of_false ?_ (by decide)
      rw [hpassed []]
      exact List.cons_ne_nil _ _
  | true =>
    refine (mmioRead_logs _).bind ?_
    rintro _ _ command' ⟨rfl, rfl⟩
    refine (mmioWrite_logs _ _).bind ?_
    rintro _ _ _ ⟨rfl, rfl⟩
    refine (waitClear_logs _ _ _).mono ?_
    rintro wait' _ ok ⟨rfl, hwait'⟩
    refine ⟨rfl, ?_, ?_⟩
    · refine hstart _ ?_
      simp only [List.forall_mem_append, List.forall_mem_singleton]
      exact ⟨.read port _, .write port _, hwait'.accesses⟩
    · rw [hpassed, if_pos rfl, List.singleton_append, List.singleton_append, remaining_cons,
        passTest_skip (by simp [clears]), remaining_cons, passTest_pass (clears_masked ..),
        hwait'.remaining]
      cases ok with
      | false => exact iff_of_false (List.cons_ne_nil _ _) (by decide)
      | true => exact iff_of_true rfl rfl

/-- The record of `stop_port`, behind accesses to other registers. -/
structure StopTrace (values : Nat → UInt32) (port : Nat) (t : List Event) (ok : Bool) : Prop where
  not_start : ∀ e ∈ t, e.isStart = false
  not_release : ∀ e ∈ t, e.isRelease = false
  asked : (∀ n, .stopPort port n ∈ t → PortStops values n) ↔ ok = true
  engines : EnginesStopped port t ↔ ok = true

theorem Event.OnCommand.not_start (h : e.OnCommand port) : e.isStart = false := by
  rcases h with ⟨value, rfl | rfl⟩ <;> rfl

theorem Event.OnCommand.not_release (h : e.OnCommand port) : e.isRelease = false := by
  rcases h with ⟨value, rfl | rfl⟩ <;> rfl

theorem StopAccesses.trace {quiet : List Event} {n : Nat} (h : StopAccesses port t ok)
    (hvalues : ok = true ↔ PortStops values n) (hquiet : ∀ e ∈ quiet, e.quiet = true) :
    StopTrace values port (quiet ++ .stopPort port n :: t) ok where
  not_start := by
    simp only [List.forall_mem_append, List.forall_mem_cons]
    exact ⟨fun e he => Event.quiet_not_start (hquiet e he), rfl,
      fun e he => (h.accesses e he).not_start⟩
  not_release := by
    simp only [List.forall_mem_append, List.forall_mem_cons]
    exact ⟨fun e he => Event.quiet_not_release (hquiet e he), rfl,
      fun e he => (h.accesses e he).not_release⟩
  asked := by
    have hmem : ∀ m, .stopPort port m ∈ quiet ++ .stopPort port n :: t ↔ m = n := by
      intro m
      have hnot : .stopPort port m ∉ quiet := fun hm => nomatch hquiet _ hm
      have hnot' : .stopPort port m ∉ t := by
        intro hm
        rcases h.accesses _ hm with ⟨value, heq | heq⟩ <;> cases heq
      simp [hnot, hnot']
    simp only [hmem, forall_eq, hvalues]
  engines := by
    rw [EnginesStopped, inOrder_iff, remaining_append,
      remaining_idle fun test htest e he => quiet_idle htest (hquiet e he)]
    exact h.engines

/-! ## Runs of `ahci_init` -/

/-- What `ahci_init` can do to the page allocator `pmm`: fail before `start_port`, succeed, or
    fail after `start_port`. -/
inductive InitOutcome (values : Nat → UInt32) (pmm : Pmm) : List Event → Pmm → Bool → Prop
  | refused {t : List Event} (hbefore : ∀ e ∈ t, e.isStart = false) :
    InitOutcome values pmm t pmm false
  | kept {before since : List Event} {port : Nat} {pmm' : Pmm}
    (hbefore : ∀ e ∈ before, e.isStart = false) (hsince : ∀ e ∈ since, e.quiet = true) :
    InitOutcome values pmm (before ++ .startPort port :: since) pmm' true
  | givenUp {before since : List Event} {port : Nat} {stopped : Bool} {dma : UInt64}
    (hbefore : ∀ e ∈ before, e.isStart = false) (hsince : StopTrace values port since stopped) :
    InitOutcome values pmm (before ++ .startPort port :: (since ++ [.released dma])) pmm false

theorem InitOutcome.prepend {pmm' : Pmm} {first : List Event}
    (hfirst : ∀ e ∈ first, e.isStart = false) (h : InitOutcome values pmm t pmm' ok) :
    InitOutcome values pmm (first ++ t) pmm' ok := by
  cases h with
  | refused hbefore => exact .refused (List.forall_mem_append.mpr ⟨hfirst, hbefore⟩)
  | kept hbefore hsince =>
    rw [← List.append_assoc]
    exact .kept (List.forall_mem_append.mpr ⟨hfirst, hbefore⟩) hsince
  | givenUp hbefore hsince =>
    rw [← List.append_assoc]
    exact .givenUp (List.forall_mem_append.mpr ⟨hfirst, hbefore⟩) hsince

/-- Code that neither starts a port nor calls the page allocator may come first. -/
theorem Within.outcome {pmm₀ : Pmm} {k : α → Code (Bus values) Bool}
    (hc : Within values (fun e => !e.isStart) c)
    (hk : ∀ a, Logs values pmm (k a) (InitOutcome values pmm₀)) :
    Logs values pmm (c >>= k) (InitOutcome values pmm₀) := by
  refine (hc pmm).bind ?_
  rintro t _ a ⟨rfl, ht⟩
  refine (hk a).mono ?_
  intro t' pmm' ok h
  exact h.prepend fun e he => by simpa using ht e he

theorem Within.unstarted (hc : Within values Event.quiet c) :
    Within values (fun e => !e.isStart) c :=
  hc.mono fun e he => by rw [Event.quiet_not_start he]; rfl

theorem stopPort_logs (port : Nat) :
    Logs values pmm (stopPort port) fun t pmm' ok => pmm' = pmm ∧
      ∃ n accesses, t = .stopPort port n :: accesses ∧ StopAccesses port accesses ok ∧
        (ok = true ↔ PortStops values n) := by
  intro bus hbus
  obtain ⟨t, hrecord, hpmm, haccesses⟩ := stopEngines_logs port
    { bus with record := bus.record ++ [.stopPort port bus.reads] } hbus
  refine ⟨.stopPort port bus.reads :: t, ?_, hpmm, _, t, rfl, haccesses, stopEngines_run port _⟩
  exact hrecord.trans (List.append_assoc ..)

theorem stopPort_unstarted (port : Nat) : Within values (fun e => !e.isStart) (stopPort port) := by
  intro pmm
  refine (stopPort_logs port).mono ?_
  rintro _ _ ok ⟨rfl, n, accesses, rfl, haccesses, -⟩
  rw [List.forall_mem_cons]
  exact ⟨rfl, rfl, fun e he => by simp only [(haccesses.accesses e he).not_start, Bool.not_false]⟩

theorem startPort_logs (port : Nat) :
    Logs values pmm (startPort port) fun t pmm' _ => pmm' = pmm ∧
      ∃ accesses, (∀ e ∈ accesses, Event.OnCommand port e) ∧ t = accesses ++ [.startPort port] := by
  refine (mmioRead_logs _).bind ?_
  rintro _ _ command ⟨rfl, rfl⟩
  refine (mmioWrite_logs _ _).bind ?_
  rintro _ _ _ ⟨rfl, rfl⟩
  refine (mmioWrite_logs _ _).bind ?_
  rintro _ _ _ ⟨rfl, rfl⟩
  refine (mark_logs _).mono ?_
  rintro _ _ _ ⟨rfl, rfl⟩
  refine ⟨rfl, [.read (portCmd port) command, .write (portCmd port) (command ||| cmdFre),
    .write (portCmd port) (command ||| cmdFre ||| cmdSt)], ?_, rfl⟩
  simp only [List.forall_mem_cons]
  exact ⟨.read port _, .write port _, .write port _, List.forall_mem_nil _⟩

/-- From `start_port` on, with the pages at `dma` taken from `pmm₀`. -/
theorem bringUp_logs {pmm₀ : Pmm} (machine : Machine) (port : Nat) {dma : UInt64} (hne : dma ≠ 0)
    (hback : (pmmReleasePages pmm dma ahciDmaPages).1 = pmm₀) :
    Logs values pmm (bringUp machine port dma) (InitOutcome values pmm₀) := by
  refine (startPort_logs port).bind ?_
  rintro _ _ _ ⟨rfl, before, hbefore, rfl⟩
  have hunstarted : ∀ e ∈ before, e.isStart = false := fun e he => (hbefore e he).not_start
  refine (identifySectorCount_quiet port machine.identifyData _).bind ?_
  rintro quiet _ sectors ⟨rfl, hquiet⟩
  split
  · refine (stopPort_logs port).bind ?_
    rintro _ _ stopped ⟨rfl, n, accesses, rfl, haccesses, hvalues⟩
    rw [releaseDma, if_pos hne]
    refine (pmmRelease_logs _ _).bind ?_
    rintro _ _ _ ⟨rfl, rfl⟩
    have houtcome : InitOutcome values pmm₀ (before ++ .startPort port ::
        ((quiet ++ .stopPort port n :: accesses) ++ [.released dma])) pmm₀ false :=
      .givenUp hunstarted (haccesses.trace hvalues hquiet)
    refine Code.Logs.pure ?_
    rw [hback]
    simpa using houtcome
  · next hsectors =>
    refine (read_quiet rfl _).bind ?_
    rintro version _ _ ⟨rfl, hversion⟩
    have houtcome : ∀ pmm',
        InitOutcome values pmm₀ (before ++ .startPort port :: (quiet ++ version)) pmm' true :=
      fun _ => .kept hunstarted (List.forall_mem_append.mpr ⟨hquiet, hversion⟩)
    refine Code.Logs.pure ?_
    rw [ahciDevice_valid hsectors]
    simpa using houtcome _

theorem attach_logs (hok : PmmOk pmm) (machine : Machine) (port : Nat) :
    Logs values pmm (attach machine port) (InitOutcome values pmm) := by
  refine (pmmAlloc_logs ahciDmaPages).bind ?_
  rintro _ pmm' dma ⟨halloc, rfl⟩
  have hallocated : ∀ e ∈ [Event.allocated dma], e.isStart = false :=
    List.forall_mem_singleton.mpr rfl
  split
  · next hzero =>
    -- a failed allocation takes nothing
    rcases pmmAllocPages_spec hok ahciDmaPages with h | ⟨start, address, pmm'', h, -, hne, -⟩
    · obtain ⟨rfl, -⟩ := Prod.mk.inj (h.symm.trans halloc)
      exact Code.Logs.pure (.prepend hallocated (.refused fun e he => nomatch he))
    · obtain ⟨-, rfl⟩ := Prod.mk.inj (h.symm.trans halloc)
      exact absurd hzero hne
  · next hne =>
    have hback : (pmmReleasePages pmm' dma ahciDmaPages).1 = pmm := by
      have hreleased := pmmReleasePages_allocPages (hok.page_count.trans (by decide))
        (show (pmmAllocPages pmm ahciDmaPages).2 ≠ 0 by rw [halloc]; exact hne)
      rw [halloc] at hreleased
      exact congrArg Prod.fst hreleased
    refine Code.Logs.mono ?_ fun t pmm₁ ok h => InitOutcome.prepend hallocated h
    refine (read_quiet rfl).unstarted.outcome fun cap => ?_
    split
    · refine (pmmRelease_logs _ _).bind ?_
      rintro _ _ _ ⟨rfl, rfl⟩
      exact Code.Logs.pure (hback ▸ .refused (List.forall_mem_singleton.mpr rfl))
    · exact (programPort_quiet port dma).unstarted.outcome fun _ =>
        bringUp_logs machine port hne hback

theorem ahciInit_logs (hok : PmmOk pmm) (machine : Machine) :
    Logs values pmm (ahciInit machine) (InitOutcome values pmm) := by
  have hrefused : Logs values pmm (pure false) (InitOutcome values pmm) :=
    Code.Logs.pure (.refused fun e he => nomatch he)
  unfold ahciInit
  split
  · exact hrefused
  · refine claimController_quiet.unstarted.outcome fun claimed => ?_
    split
    · exact hrefused
    · refine (read_quiet rfl).unstarted.outcome fun globalControl => ?_
      refine (write_quiet rfl _).unstarted.outcome fun _ => ?_
      refine (read_quiet rfl).unstarted.outcome fun implemented => ?_
      refine (findPort_quiet implemented 32 0).unstarted.outcome fun found => ?_
      cases found with
      | none => exact hrefused
      | some port =>
        refine (stopPort_unstarted port).outcome fun stopped => ?_
        split
        · exact hrefused
        · exact attach_logs hok machine port

theorem initRun_outcome (hok : PmmOk pmm) (machine : Machine) (values : Nat → UInt32) :
    InitOutcome values pmm (initRun machine values pmm).1.record (initRun machine values pmm).1.pmm
      (initRun machine values pmm).2 := by
  obtain ⟨t, hrecord, houtcome⟩ := ahciInit_logs hok machine ⟨0, [], pmm⟩ rfl
  rw [← List.nil_append t, ← hrecord] at houtcome
  exact houtcome

theorem startPort_mem {before since : List Event} (h : t = before ++ .startPort port :: since)
    (hno : ∀ e ∈ t, e.isStart = false) : False := by
  have hmem : Event.startPort port ∈ t := by
    rw [h]
    exact List.mem_append_right _ List.mem_cons_self
  cases hno _ hmem

/-- The law and the condition, on every run that `ahci_init` can make. -/
theorem InitOutcome.dmaSafe_iff {run : Bus values × Bool}
    (h : InitOutcome values pmm run.1.record run.1.pmm run.2) :
    DmaSafe pmm run ↔ ∀ n, StopAsked run.1.record n → PortStops values n := by
  obtain ⟨⟨reads, record, pmm'⟩, result⟩ := run
  dsimp only at h
  cases h with
  | refused hbefore =>
    refine iff_of_true ⟨?_, fun _ => rfl⟩ ?_
    · intro before port since dma after heq
      exact (startPort_mem heq hbefore).elim
    · rintro n ⟨before, port, since, heq, -⟩
      exact (startPort_mem heq hbefore).elim
  | @kept before since port _ hbefore hsince =>
    have hunstarted : ∀ e ∈ since, e.isStart = false :=
      fun e he => Event.quiet_not_start (hsince e he)
    refine iff_of_true ⟨?_, nofun⟩ ?_
    · intro before' port' since' dma after heq
      obtain ⟨-, -, hsplit⟩ := split_unique hbefore hunstarted rfl heq
      have hmem : Event.released dma ∈ since := by
        rw [hsplit]
        exact List.mem_append_right _ List.mem_cons_self
      cases hsince _ hmem
    · rintro n ⟨before', port', since', heq, hmem⟩
      obtain ⟨-, -, rfl⟩ := split_unique hbefore hunstarted rfl heq
      cases hsince _ hmem
  | @givenUp before since port stopped dma hbefore hsince =>
    have hunstarted : ∀ e ∈ since ++ [.released dma], Event.isStart e = false :=
      List.forall_mem_append.mpr ⟨hsince.not_start, List.forall_mem_singleton.mpr rfl⟩
    constructor
    · intro hsafe n ⟨before', port', since', heq, hmem⟩
      obtain ⟨-, hport, rfl⟩ := split_unique hbefore hunstarted rfl heq
      obtain rfl := Event.startPort.inj hport
      have hengines := hsafe.stopped before port since dma [] rfl
      rcases List.mem_append.mp hmem with hmem | hmem
      · exact hsince.asked.mpr (hsince.engines.mp hengines) n hmem
      · cases List.mem_singleton.mp hmem
    · intro hstops
      refine ⟨?_, fun _ => rfl⟩
      intro before' port' since' dma' after heq
      obtain ⟨-, hport, hsplit⟩ := split_unique hbefore hunstarted rfl heq
      obtain rfl := Event.startPort.inj hport
      obtain ⟨rfl, -, -⟩ := split_unique hsince.not_release (List.forall_mem_nil _) rfl hsplit
      refine hsince.engines.mpr (hsince.asked.mp fun n hn => ?_)
      exact hstops n ⟨before, port, _, rfl, List.mem_append_left _ hn⟩

end Record

/-! ## Runs on fixed values -/

theorem run_waitClear_clear (h : values bus.reads &&& mask = 0) :
    (waitClear register mask ahciTimeout).run bus = ({ bus with
      reads := bus.reads + 1
      record := bus.record ++ [.read register (values bus.reads)] }, true) := by
  rw [show ahciTimeout = 9999999 + 1 from rfl, waitClear, Code.run_bind, run_mmioRead]
  dsimp only
  rw [if_pos h]
  rfl

theorem run_awaitCommand_error (h : values bus.reads &&& isTfes ≠ 0) :
    (awaitCommand port ahciTimeout).run bus = ({ bus with
      reads := bus.reads + 1
      record := bus.record ++ [.read (portIs port) (values bus.reads)] }, false) := by
  rw [show ahciTimeout = 9999999 + 1 from rfl, awaitCommand, Code.run_bind, run_mmioRead]
  dsimp only
  rw [if_pos h]
  rfl

theorem run_waitClear_stuck {value : UInt32} (hmask : value &&& mask ≠ 0) (attempts : Nat)
    (h : ∀ n, bus.reads ≤ n → values n = value) :
    (waitClear register mask attempts).run bus = ({ bus with
      reads := bus.reads + attempts
      record := bus.record ++ List.replicate attempts (.read register value) }, false) := by
  induction attempts generalizing bus with
  | zero => simp [waitClear]
  | succ attempts ih =>
    have hvalue := h bus.reads (Nat.le_refl _)
    rw [waitClear, Code.run_bind, run_mmioRead]
    dsimp only
    rw [hvalue, if_neg hmask, ih]
    · rw [List.replicate_succ, List.append_assoc, Nat.add_assoc, Nat.add_comm 1]
      rfl
    · exact fun n hn => h n (Nat.le_of_succ_le hn)

theorem run_stopPort_stuck {value : UInt32} (hcr : value &&& cmdCr ≠ 0) (port : Nat)
    (h : ∀ n, bus.reads ≤ n → values n = value) :
    (stopPort port).run bus = ({ bus with
      reads := bus.reads + 1 + ahciTimeout
      record := bus.record ++ [.stopPort port bus.reads] ++ [.read (portCmd port) value] ++
        [.write (portCmd port) (value &&& ~~~cmdSt)] ++
        List.replicate ahciTimeout (.read (portCmd port) value) }, false) := by
  rw [stopPort, Code.run_bind, Code.run_store, stopEngines, Code.run_bind, run_mmioRead]
  dsimp only
  rw [h bus.reads (Nat.le_refl _), Code.run_bind, run_mmioWrite]
  dsimp only
  rw [Code.run_bind, run_waitClear_stuck hcr]
  · dsimp only
    rw [if_pos rfl, Code.run_pure]
  · exact fun n hn => h n (Nat.le_of_succ_le hn)

/-! ## A drive that cannot be identified -/

def sampleMachine : Machine where
  hasDevice := true
  hasPagingInfo := true
  classCode := 0x01
  subclass := 0x06
  programmingInterface := 0x01
  bar := 0xFEB00000
  mappedBytes := 0x100000000
  marksMmio := true
  enablesBusMaster := true
  identifyData := fun _ => 0

/-- Three pages, of which the first is reserved. -/
def samplePmm : Pmm where
  usableBitmap := fun _ => 0b110
  usedBitmap := fun _ => 0
  pageCount := 3
  managedCount := 2
  freeCount := 2

theorem samplePmm_ok : PmmOk samplePmm := ⟨by decide, by decide⟩

/-- One drive on port 0, which stops when it is asked to and answers the identify command with a
    task file error; from then on every register reads as `later`. -/
def failingDrive (later : UInt32) (n : Nat) : UInt32 :=
  [0, 0, 1, 0x103, 0x101, 0, 0, 0, 0, 0x80000000, 0, 0, 0, 0, 0x40000000].getD n later

/-- The record up to `start_port`. -/
def recordToStart : List Event :=
  [.read hbaCap2 0, .read hbaGhc 0, .write hbaGhc 0x80000000, .read hbaPi 1,
    .read (portSsts 0) 0x103, .read (portSig 0) 0x101, .stopPort 0 5, .read (portCmd 0) 0,
    .write (portCmd 0) 0, .read (portCmd 0) 0, .read (portCmd 0) 0, .write (portCmd 0) 0,
    .read (portCmd 0) 0, .allocated 0x1000, .read hbaCap 0x80000000, .write (portClb 0) 0x1000,
    .write (portClbu 0) 0, .write (portFb 0) 0x1400, .write (portFbu 0) 0, .write (portIe 0) 0,
    .write (portIs 0) 0xFFFFFFFF, .write (portSerr 0) 0xFFFFFFFF, .read (portCmd 0) 0,
    .write (portCmd 0) 0x10, .write (portCmd 0) 0x11]

/-- The record of the identify command. -/
def recordOfIdentify : List Event :=
  [.read (portTfd 0) 0, .read (portSact 0) 0, .read (portCi 0) 0, .write (portIs 0) 0xFFFFFFFF,
    .write (portSerr 0) 0xFFFFFFFF, .write (portCi 0) 1, .read (portIs 0) 0x40000000]

def failedBus (later : UInt32) : Bus (failingDrive later) where
  reads := 15
  record := recordToStart ++ .startPort 0 :: recordOfIdentify
  pmm := (pmmAllocPages samplePmm ahciDmaPages).1

theorem failingDrive_run (later : UInt32) :
    initRun sampleMachine (failingDrive later) samplePmm =
      (stopPort 0 >>= fun _ => releaseDma 0x1000 >>= fun _ => pure false).run
        (failedBus later) := by
  have hdma : (pmmAllocPages samplePmm ahciDmaPages).2 = 0x1000 := by decide
  have hwords : ghcAe &&& ~~~ghcIe = 0x80000000 ∧ ((4096 : UInt64) >>> 32).toUInt32 = 0 ∧
      ((5120 : UInt64) >>> 32).toUInt32 = 0 ∧ cmdFre = 0x10 ∧ 0x10 ||| cmdSt = 0x11 := by decide
  simp +decide [hwords, initRun, ahciInit, claimController, findPort,
    sataPortPresent, stopPort, stopEngines, run_waitClear_clear, pmmAlloc, hdma, attach,
    programPort, startPort, bringUp, identifySectorCount, issueCommand, slotBusy,
    run_awaitCommand_error, failingDrive,
    recordToStart,
    recordOfIdentify, failedBus]

/-- With a port that stops, the pages go back in order. -/
theorem failingDrive_stopped :
    (initRun sampleMachine (failingDrive 0) samplePmm).1.record =
      recordToStart ++ .startPort 0 :: (recordOfIdentify ++ [.stopPort 0 15, .read (portCmd 0) 0,
        .write (portCmd 0) 0, .read (portCmd 0) 0, .read (portCmd 0) 0, .write (portCmd 0) 0,
        .read (portCmd 0) 0, .released 0x1000]) := by
  decide +kernel

/-- With a port that does not stop, they go back all the same. -/
theorem failingDrive_stuck {later : UInt32} (hcr : later &&& cmdCr ≠ 0) :
    (initRun sampleMachine (failingDrive later) samplePmm).1.record =
      recordToStart ++ .startPort 0 ::
        ((recordOfIdentify ++ ([.stopPort 0 15, .read (portCmd 0) later,
        .write (portCmd 0) (later &&& ~~~cmdSt)] ++
        List.replicate ahciTimeout (.read (portCmd 0) later))) ++ [.released 0x1000]) := by
  have hlater : ∀ n, (failedBus later).reads ≤ n → failingDrive later n = later :=
    fun n hn => List.getD_eq_default _ _ hn
  rw [failingDrive_run, Code.run_bind, run_stopPort_stuck hcr 0 hlater, Code.run_bind, releaseDma,
    if_pos (by decide)]
  simp [pmmRelease, failedBus]

/-! ## The DMA pages -/

/-- Whatever the registers return, the DMA pages go back with the engines stopped, and none is
    kept by a failed initialisation, exactly if the registers of a started port that is asked to
    stop say in time that it has. -/
theorem dma_stopped_iff (machine : Machine) (values : Nat → UInt32) (pmm : Pmm) (hok : PmmOk pmm) :
    DmaSafe pmm (initRun machine values pmm) ↔
      ∀ n, StopAsked (initRun machine values pmm).1.record n → PortStops values n :=
  (initRun_outcome hok machine values).dmaSafe_iff

theorem dma_stopped_failingDrive :
    PmmOk samplePmm ∧ StopAsked (initRun sampleMachine (failingDrive 0) samplePmm).1.record 15 ∧
      DmaSafe samplePmm (initRun sampleMachine (failingDrive 0) samplePmm) := by
  refine ⟨samplePmm_ok, ⟨_, _, _, failingDrive_stopped, by decide⟩, ?_⟩
  refine (dma_stopped_iff sampleMachine (failingDrive 0) samplePmm samplePmm_ok).mpr ?_
  rintro n ⟨before, port, since, hrecord, hmem⟩
  rw [failingDrive_stopped] at hrecord
  obtain ⟨-, -, rfl⟩ := split_unique (show ∀ e ∈ recordToStart, e.isStart = false by decide)
    (by decide) rfl hrecord
  obtain ⟨-, rfl⟩ : port = 0 ∧ n = 15 := by simpa [recordOfIdentify] using hmem
  exact ⟨0, by decide, by decide, nofun, 0, by decide, by decide⟩

/-- A port that keeps running: its pages are free again, and no read since `start_port` has shown
    the command engine stopped. -/
theorem released_while_running :
    (∃ before since, (initRun sampleMachine (failingDrive 0xC000) samplePmm).1.record =
        before ++ .startPort 0 :: (since ++ [.released 0x1000]) ∧
        ∀ value, .read (portCmd 0) value ∈ since → value &&& cmdCr ≠ 0) ∧
      ¬ DmaSafe samplePmm (initRun sampleMachine (failingDrive 0xC000) samplePmm) := by
  have hreads : ∀ value, Event.read (portCmd 0) value ∈
      recordOfIdentify ++ ([.stopPort 0 15, .read (portCmd 0) 0xC000,
        .write (portCmd 0) (0xC000 &&& ~~~cmdSt)] ++
        List.replicate ahciTimeout (.read (portCmd 0) 0xC000)) →
      value &&& cmdCr ≠ 0 := by
    intro value hmem
    have hcases : value = 0xC000 ∨ ¬ ahciTimeout = 0 ∧ value = 0xC000 := by
      simpa [recordOfIdentify, List.mem_replicate, portCmd, portTfd, portSact, portCi, portIs]
        using hmem
    have hvalue : value = 0xC000 := hcases.elim id fun h => h.2
    rw [hvalue]
    decide
  have hrecord := failingDrive_stuck (show (0xC000 : UInt32) &&& cmdCr ≠ 0 by decide)
  refine ⟨⟨_, _, hrecord, hreads⟩, ?_⟩
  intro hsafe
  have hengines := hsafe.stopped _ _ _ _ _ hrecord
  obtain ⟨e, hmem, he⟩ := InOrder.mem hengines
    (show seesClear 0 cmdCr ∈ stopSequence 0 from List.mem_cons_of_mem _ List.mem_cons_self)
  cases e with
  | read register value =>
    simp only [seesClear, Bool.and_eq_true, beq_iff_eq] at he
    rw [he.1] at hmem
    exact hreads value hmem he.2
  | _ => cases he

end ArgusOs.Ahci
