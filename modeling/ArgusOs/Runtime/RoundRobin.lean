/-
  The order in which processes are dispatched.

  `process_run_ready_once` takes the first eligible slot from the scheduler's cursor on, in the
  circle of the configured slots, and puts the cursor behind it. No other call moves the cursor,
  whatever the processes and the rest of the kernel do in between.
-/
import ArgusOs.Lib.Rotation
import ArgusOs.Runtime.Records

namespace ArgusOs.Runtime

open Lib Memory

/-! ## A selection -/

/-- The slot at a position holds a process that can be dispatched. -/
def Kernel.eligible (k : Kernel) (position : Nat) : Prop :=
  ∃ i : Fin 8, i.val = position ∧ (k.processes i).runnable = true

theorem slotAt_eq_some {position : Nat} {i : Fin 8} :
    slotAt position = some i ↔ i.val = position := by
  unfold slotAt
  split
  · next h =>
    rw [Option.some.injEq, Fin.ext_iff]
    exact eq_comm
  · next h =>
    exact iff_of_false (by simp) (by omega)

variable {k : Kernel}

/-- `next_ready_process` finds the first eligible position. -/
theorem nextReadyProcess_picks {start : Nat} {i : Fin 8} (h : nextReadyProcess k start = some i) :
    Picks k.configuredProcesses k.eligible start i.val := by
  unfold nextReadyProcess at h
  rw [List.find?_filterMap, Option.bind_eq_some_iff] at h
  obtain ⟨d, hfind, hslot⟩ := h
  rw [slotAt_eq_some] at hslot
  rw [List.find?_range_eq_some] at hfind
  obtain ⟨hable, hd, hbefore⟩ := hfind
  rw [List.mem_range] at hd
  constructor
  case inside =>
    rw [hslot]
    exact Nat.mod_lt _ (by omega)
  case able =>
    rw [slotAt_eq_some.mpr hslot] at hable
    exact ⟨i, rfl, hable⟩
  case first =>
    rw [hslot, ahead_eq hd]
    rintro e he ⟨j, hj, hrunnable⟩
    have hnot := hbefore e he
    rw [slotAt_eq_some.mpr hj, Option.any_some, hrunnable] at hnot
    cases hnot

/-! ## Calls in between -/

/-- What the rest of the kernel does between two dispatches: any other calls. -/
inductive Meanwhile (images : Images) (k : Kernel) : Kernel → Prop
  | refl : Meanwhile images k k
  | call {k' k'' : Kernel} {result : Bool} (h : Meanwhile images k k') (call : Call)
    (hother : ∀ run, call ≠ .runReadyOnce run) (hcall : call.exec images k' = .ok (k'', result)) :
    Meanwhile images k k''

variable {images : Images}

theorem Meanwhile.cursor {k' : Kernel} (h : Meanwhile images k k')
    (hcur : k.currentProcess = none) :
    k'.currentProcess = none ∧ k'.schedulerCursor = k.schedulerCursor := by
  induction h with
  | refl => exact ⟨hcur, rfl⟩
  | call _ call hother hcall ih =>
    obtain ⟨hback, hkept⟩ := call_steps images ih.1 call _ hcall
    exact ⟨hback.current, (hkept hother).trans ih.2⟩

/-! ## Dispatches -/

/-- The slot that is selected is the one that is dispatched. -/
theorem processRunReadyOnce_dispatches {i : Fin 8} (hidle : k.currentProcess = none)
    (hready : k.schedulerReady = true ∧ k.processSelfTestPassed = true)
    (hselected : nextReadyProcess (wakeBlockedProcesses k) k.schedulerCursor = some i)
    (run : List UserEvent) :
    processRunReadyOnce images run k = dispatchProcess images i run { wakeBlockedProcesses k with
      schedulerCursor := (i.val + 1) % k.configuredProcesses } := by
  unfold processRunReadyOnce
  rw [if_neg (by simp [hready, hidle])]
  dsimp only
  rw [show nextReadyProcess (wakeBlockedProcesses k) (wakeBlockedProcesses k).schedulerCursor =
    some i from hselected]
  dsimp only
  rw [show (wakeBlockedProcesses k).configuredProcesses = k.configuredProcesses from rfl]

/-- A call of `process_run_ready_once` that dispatches slot `i`, whatever the process then does. -/
structure Dispatches (images : Images) (k : Kernel) (i : Fin 8) (k' : Kernel) : Prop where
  idle : k.currentProcess = none
  selected : nextReadyProcess (wakeBlockedProcesses k) k.schedulerCursor = some i
  returns : ∃ run result, k.schedulerReady = true ∧ k.processSelfTestPassed = true ∧
    processRunReadyOnce images run k = .ok (k', result)

/-- The selected process is run, with the cursor behind it. -/
def Kernel.Runs (images : Images) (k : Kernel) (i : Fin 8) (k' : Kernel) : Prop :=
  ∃ run result, processRunReadyOnce images run k = .ok (k', result) ∧
    dispatchProcess images i run { wakeBlockedProcesses k with
      schedulerCursor := (i.val + 1) % k.configuredProcesses } = .ok (k', result)

theorem Dispatches.runs {k' : Kernel} {i : Fin 8} (h : Dispatches images k i k') :
    k.Runs images i k' := by
  obtain ⟨run, result, hready, hpassed, hcall⟩ := h.returns
  refine ⟨run, result, hcall, ?_⟩
  rw [← processRunReadyOnce_dispatches h.idle ⟨hready, hpassed⟩ h.selected, hcall]

theorem Dispatches.cursor {k' : Kernel} {i : Fin 8} (h : Dispatches images k i k') :
    k'.currentProcess = none ∧ k'.schedulerCursor = (i.val + 1) % k.configuredProcesses := by
  obtain ⟨run, result, -, hrun⟩ := h.runs
  have hdispatched := dispatchProcess_steps images i run (by exact h.idle) _ hrun
  exact ⟨hdispatched.current, hdispatched.returned.cursor⟩

/-- Calls that each dispatch a process, with what the rest of the kernel does in between: the
    kernel before each of them and the slot it takes. -/
inductive Schedule (images : Images) : Kernel → List (Kernel × Fin 8) → Prop
  | nil (k : Kernel) : Schedule images k []
  | cons {k k₁ k₂ : Kernel} {i : Fin 8} {rest : List (Kernel × Fin 8)}
    (h : Dispatches images k i k₁) (hmeanwhile : Meanwhile images k₁ k₂)
    (hrest : Schedule images k₂ rest) : Schedule images k ((k, i) :: rest)

/-- The cursor with which a kernel selects, and what is eligible then. -/
def selection (turn : Kernel × Fin 8) : (Nat → Prop) × Nat :=
  ((wakeBlockedProcesses turn.1).eligible, turn.2.val)

/-- The dispatches are rounds of a rotation. -/
theorem Schedule.rounds {turns : List (Kernel × Fin 8)} {n : Nat} (h : Schedule images k turns)
    (hconf : ∀ turn ∈ turns, turn.1.configuredProcesses = n) :
    Rounds n k.schedulerCursor (turns.map selection) := by
  induction h with
  | nil k => exact .nil _
  | @cons k k₁ k₂ i rest h hmeanwhile _ ih =>
    rw [List.forall_mem_cons] at hconf
    have hn : k.configuredProcesses = n := hconf.1
    have hpick := nextReadyProcess_picks h.selected
    obtain ⟨hidle, hcursor⟩ := h.cursor
    have hnext := ih hconf.2
    rw [(hmeanwhile.cursor hidle).2, hcursor, hn] at hnext
    have hconfigured : (wakeBlockedProcesses k).configuredProcesses = n := hn
    rw [hconfigured] at hpick
    exact .cons hpick hnext

theorem Schedule.runs {turns : List (Kernel × Fin 8)} (h : Schedule images k turns) :
    ∀ turn ∈ turns, ∃ k', turn.1.Runs images turn.2 k' := by
  induction h with
  | nil => exact List.forall_mem_nil _
  | cons h _ _ ih => exact List.forall_mem_cons.mpr ⟨⟨_, h.runs⟩, ih⟩

/-- Whatever the processes and the rest of the kernel do, a process that is eligible at each of as
    many dispatches as slots are configured is taken by one of them, and every dispatch takes the
    first eligible slot behind the one that was taken before. The slot that is taken is run. -/
theorem dispatch_round_robin (images : Images) (k : Kernel)
    (turns : List (Kernel × Fin 8)) (n : Nat)
    (h : Schedule images k turns) (hconf : ∀ turn ∈ turns, turn.1.configuredProcesses = n) :
    (turns.length = n → ∀ p : Fin 8, p.val < n →
      (∀ turn ∈ turns, ((wakeBlockedProcesses turn.1).processes p).runnable = true) →
      ∃ turn ∈ turns, turn.2 = p) ∧
    (∀ before turn next after, turns = before ++ turn :: next :: after →
      Picks n (wakeBlockedProcesses next.1).eligible ((turn.2.val + 1) % n) next.2.val) ∧
    ∀ turn ∈ turns, ∃ k', turn.1.Runs images turn.2 k' := by
  have hrounds := h.rounds hconf
  refine ⟨?_, ?_, h.runs⟩
  · intro hlen p hp hable
    obtain ⟨r, hr, hrp⟩ := hrounds.picked hp (by
      intro r hr
      obtain ⟨turn, hturn, rfl⟩ := List.mem_map.mp hr
      exact ⟨p, rfl, hable turn hturn⟩) (by rw [List.length_map, hlen]; exact ahead_lt hp _)
    obtain ⟨turn, hturn, rfl⟩ := List.mem_map.mp hr
    exact ⟨turn, hturn, Fin.ext hrp⟩
  · rintro before turn next after rfl
    rw [List.map_append, List.map_cons, List.map_cons] at hrounds
    exact hrounds.next

/-- Two probes that are ready, and the kernel between dispatches. -/
def twoProbes : Kernel :=
  { Kernel.before sampleMachine with
    processes := fun i => if i.val < 2 then { Process.zero with state := .ready } else .zero
    configuredProcesses := 2
    schedulerReady := true
    processSelfTestPassed := true }

/-- The process that is dispatched exits at once. -/
def exitAtOnce : List UserEvent := [.syscall { UserContext.zero with rax := syscallExit }]

/-- The kernel after a call of `process_run_ready_once` whose process exits. -/
def afterExit (k : Kernel) : Kernel :=
  match processRunReadyOnce sampleImages exitAtOnce k with
  | .ok r => r.1
  | .error _ => k

/-- The second probe is eligible at two dispatches in a row, and taken by the second. -/
theorem dispatch_round_robin_twoProbes :
    ∃ turn ∈ [(twoProbes, (0 : Fin 8)), (afterExit twoProbes, 1)], turn.2 = 1 := by
  have hfirst : Dispatches sampleImages twoProbes 0 (afterExit twoProbes) :=
    ⟨rfl, by decide, exitAtOnce, true, rfl, rfl, rfl⟩
  have hsecond :
      Dispatches sampleImages (afterExit twoProbes) 1 (afterExit (afterExit twoProbes)) :=
    ⟨rfl, by decide, exitAtOnce, true, rfl, rfl, rfl⟩
  have hschedule := Schedule.cons hfirst .refl (.cons hsecond .refl (.nil _))
  refine (dispatch_round_robin sampleImages twoProbes _ 2 hschedule ?_).1 rfl 1 (by decide) ?_
  · simp only [List.forall_mem_cons]
    exact ⟨rfl, rfl, by simp⟩
  · simp only [List.forall_mem_cons]
    exact ⟨rfl, rfl, by simp⟩

end ArgusOs.Runtime
