/-
  Keys on their way to an app.

  `process_app_input` stores keys into the ring of a process and `app_input_poll` takes them
  out. `Queued` ties the ring to the history of the process: what was accepted is what was
  returned, followed by the keys that wait. It is a property of one record, so it follows from
  what can happen to a record (`Change`). A record that is loaded starts with both histories
  empty, so a lifetime is what its histories describe.

    no_lost_wakeup    an app that is blocked has no key waiting, and its deadline is not past
    app_input_fifo    what an app polls is a prefix of what was accepted for it, in order;
                      a key is refused exactly when 31 wait; and nothing else touches the keys
-/
import ArgusOs.Runtime.Confinement

namespace ArgusOs.Runtime

open Lib Memory Capability Ipc Elf Function

variable {p : Process} {key : UInt8} {k k' : Kernel} {pid : UInt64} {appId : UInt32}
  {action : UserAction} {images : Images} {i : Fin 8}

/-! ## Waking -/

/-- **No lost wakeup.** In every reachable state a blocked process has an empty input queue; and
    right after the scheduler has woken processes, one that is still blocked waits without a
    deadline or for a later tick. -/
theorem no_lost_wakeup (images : Images) (paging : PagingInfo) (k₀ k : Kernel)
    (h : Reachable images paging k₀ k) :
    (∀ i, (k.processes i).state = .blocked →
      (k.processes i).inputHead = (k.processes i).inputTail) ∧
    ∀ i, ((wakeBlockedProcesses k).processes i).state = .blocked →
      ¬ (((wakeBlockedProcesses k).processes i).waitDeadline ≠ wordMax ∧
        ((wakeBlockedProcesses k).processes i).waitDeadline ≤ k.timerTicks) := by
  have hsched := h.scheduled
  refine ⟨fun i hb => (hsched.blocked i hb).2.symm, ?_⟩
  intro i hb
  -- a process that is still blocked was blocked before and not woken
  by_cases hw : k.wakes i = true
  · rw [wake_woken hw] at hb
    cases hb
  · rw [wake_kept hw] at hb ⊢
    have hlive : (k.processes i).state ≠ .unused := by
      rw [hb]
      decide
    have hlow := (h.placed i hlive).app (hsched.blocked i hb).1
    have hconf := hsched.covered i hlive
    intro hdue
    apply hw
    have hdue' : (k.processes i).due k.timerTicks = true := by
      unfold Process.due
      rw [Bool.or_eq_true, Bool.and_eq_true, decide_eq_true_eq, decide_eq_true_eq,
        decide_eq_true_eq]
      exact Or.inr hdue
    unfold Kernel.wakes
    rw [hdue', Bool.and_true, Bool.and_eq_true, Bool.and_eq_true, decide_eq_true_eq,
      decide_eq_true_eq, decide_eq_true_eq]
    exact ⟨⟨hlow, hconf⟩, hb⟩

/-- After a self-test the three apps are blocked, each until a key comes or tick 1000. -/
theorem no_lost_wakeup_sample :
    ∃ k, Reachable presentingImages sampleKernel (.before sampleMachine) k ∧
      ∀ index, (k.processes (catalogSlot index)).state = .blocked ∧
        (k.processes (catalogSlot index)).inputHead = (k.processes (catalogSlot index)).inputTail ∧
        ((wakeBlockedProcesses k).processes (catalogSlot index)).state = .blocked ∧
        ¬ (((wakeBlockedProcesses k).processes (catalogSlot index)).waitDeadline ≠ wordMax ∧
          ((wakeBlockedProcesses k).processes (catalogSlot index)).waitDeadline ≤
            k.timerTicks) := by
  obtain ⟨-, -, k, -, -, hreach, -, -, hwaiting, -⟩ := sampleRuns_passed 0 (by decide)
  obtain ⟨hempty, hlater⟩ := no_lost_wakeup _ _ _ k hreach
  refine ⟨k, hreach, fun index => ?_⟩
  obtain ⟨hblocked, hstill, -⟩ := Kernel.waiting_app hwaiting index
  exact ⟨hblocked, hempty _ hblocked, hstill, hlater _ hstill⟩

/-! ## The ring of one process -/

/-- `n` keys wait. -/
structure Queued (p : Process) (n : Nat) : Prop where
  room : n < 32
  head : p.inputHead = ringIndex p.inputTail n
  history : p.accepted = p.returned ++ ringContents p.input p.inputTail n
  nonzero : ∀ key ∈ p.accepted, key ≠ 0

section Queue

variable {n : Nat} (h : Queued p n)

include h

theorem Queued.length : p.accepted.length = p.returned.length + n := by
  rw [h.history, List.length_append, ringContents_length]

theorem Queued.empty_iff : p.inputTail = p.inputHead ↔ n = 0 := by
  constructor
  · intro heq
    by_contra hne
    apply ringIndex_ne p.inputTail (Nat.pos_of_ne_zero hne) h.room
    rw [ringIndex_zero, ← h.head, heq]
  · intro hz
    rw [h.head, hz, ringIndex_zero]

theorem Queued.full_iff : p.inputHead + 1 = p.inputTail ↔ n = 31 := by
  rw [h.head, ringIndex_push]
  constructor
  · intro heq
    by_contra hne
    have hroom := h.room
    apply ringIndex_ne p.inputTail (Nat.succ_pos n) (by omega)
    rw [ringIndex_zero, heq]
  · rintro rfl
    apply Fin.ext
    rw [ringIndex_val]
    have := p.inputTail.isLt
    omega

theorem Queued.take (hne : p.inputTail ≠ p.inputHead) :
    ∃ m, n = m + 1 ∧ Queued p.takeKey m ∧
      p.accepted = p.returned ++ p.input p.inputTail ::
        ringContents p.input (p.inputTail + 1) m := by
  obtain ⟨m, rfl⟩ := Nat.exists_eq_succ_of_ne_zero fun hz => hne (h.empty_iff.mpr hz)
  have hpop := h.history
  rw [ringContents_pop] at hpop
  refine ⟨m, rfl, ⟨Nat.lt_of_succ_lt h.room, ?_, ?_, h.nonzero⟩, hpop⟩
  · exact h.head.trans (ringIndex_succ p.inputTail m)
  · show p.accepted = p.returned ++ [p.input p.inputTail] ++
      ringContents p.input (p.inputTail + 1) m
    rw [List.append_assoc]
    exact hpop

theorem Queued.push (hkey : key ≠ 0) (hroom : p.inputHead + 1 ≠ p.inputTail) :
    Queued (p.pushKey key) (n + 1) := by
  have hn : n ≠ 31 := fun hc => hroom (h.full_iff.mpr hc)
  have hlt := h.room
  refine ⟨by omega, ?_, ?_, ?_⟩
  · show p.inputHead + 1 = ringIndex p.inputTail (n + 1)
    rw [h.head, ringIndex_push]
  · show p.accepted ++ [key] = p.returned ++
      ringContents (update p.input p.inputHead key) p.inputTail (n + 1)
    rw [h.head, ringContents_push _ _ h.room, ← List.append_assoc, ← h.history]
  · intro key' hmem
    change key' ∈ p.accepted ++ [key] at hmem
    rw [List.mem_append, List.mem_singleton] at hmem
    rcases hmem with hold | rfl
    · exact h.nonzero key' hold
    · exact hkey

end Queue

/-- Every process that is there has its keys in order. -/
def Ordered (k : Kernel) : Prop :=
  ∀ i, k.Live i → ∃ n, Queued (k.processes i) n

theorem queued_born (h : Born pid appId p) : Queued p 0 := by
  have hcore := h.core
  have hhead : p.inputHead = 0 := congrArg Process.inputHead hcore
  have htail : p.inputTail = 0 := congrArg Process.inputTail hcore
  have hacc : p.accepted = [] := congrArg Process.accepted hcore
  have hret : p.returned = [] := congrArg Process.returned hcore
  refine ⟨by decide, ?_, ?_, ?_⟩
  · rw [hhead, htail, ringIndex_zero]
  · rw [hacc, hret, ringContents_zero]
    rfl
  · intro key hmem
    rw [hacc] at hmem
    cases hmem

theorem Moves.queued {polls : Prop} {mem : Mem} {p' : Process} (h : Moves polls mem p action p')
    {n : Nat} (hq : Queued p n) : ∃ m, Queued p' m := by
  cases h with
  | poll _ hne =>
    obtain ⟨m, -, hm, -⟩ := hq.take hne
    exact ⟨m, hm⟩
  | same => exact ⟨n, hq⟩
  | present | yield | exit | wait | preempt | fault =>
    exact ⟨n, hq.room, hq.head, hq.history, hq.nonzero⟩

theorem Ordered.change (h : Ordered k)
    (hc : ∀ i, Change images k k' i (k.processes i) (k'.processes i)) : Ordered k' := by
  intro i hlive
  have hi := hc i
  unfold Kernel.Live at hlive
  revert hlive hi
  generalize k'.processes i = p'
  intro hlive hi
  cases hi with
  | same => exact h i hlive
  | run hstate | wake hstate =>
    obtain ⟨n, hq⟩ := h i (by rw [Kernel.Live, hstate]; decide)
    exact ⟨n, hq.room, hq.head, hq.history, hq.nonzero⟩
  | moves _ hstate hm =>
    obtain ⟨n, hq⟩ := h i (by rw [Kernel.Live, hstate]; decide)
    exact hm.queued hq
  | active =>
    obtain ⟨n, hq⟩ := h i hlive
    exact ⟨n, hq.room, hq.head, hq.history, hq.nonzero⟩
  | key _ _ _ _ hlisten hkey hroom =>
    obtain ⟨n, hq⟩ := h i (listening_live hlisten)
    exact ⟨n + 1, hq.push hkey hroom⟩
  | load _ _ _ hborn => exact ⟨0, queued_born hborn⟩
  | failed _ hun => exact absurd hun hlive
  | release => exact absurd rfl hlive

theorem Reachable.ordered {paging : PagingInfo} {k₀ : Kernel} (h : Reachable images paging k₀ k) :
    Ordered k := by
  refine Reachable.scheduled_invariant Ordered ?_ ?_ h
  · exact fun k hk i hlive => ⟨0, queued_born (processInit_born hk i hlive).2⟩
  · exact fun k k' hk hordered hs => hordered.change fun i => hs.change hk i

/-! ## Polling -/

theorem syscallDispatch_poll {c : UserContext} (hrun : k.running = some i)
    (hc : c.rax = syscallInputPoll) : syscallDispatch k c = sysInputPoll k.countSyscall i c := by
  rw [syscallDispatch_eq hrun]
  unfold syscallSwitch
  rw [hc]
  rfl

/-- A poll is refused, finds the queue empty, or takes the oldest key. -/
theorem inputPoll_cases {c c' : UserContext} (hrun : k.running = some i)
    (hc : c.rax = syscallInputPoll) (h : syscallDispatch k c = .ok (k', c', action)) :
    action = .ret ∧ (∀ j, j ≠ i → k'.processes j = k.processes j) ∧
      ((c'.rax = wordMax ∧ k'.processes i = k.processes i) ∨
        ((k.processes i).inputTail = (k.processes i).inputHead ∧ c'.rax = 0 ∧
          k'.processes i = k.processes i) ∨
        ((k.processes i).inputTail ≠ (k.processes i).inputHead ∧
          c'.rax = ((k.processes i).input (k.processes i).inputTail).toUInt64 ∧
          k'.processes i = (k.processes i).takeKey)) := by
  rw [syscallDispatch_poll hrun hc] at h
  unfold sysInputPoll at h
  split at h
  · cases h
    refine ⟨rfl, fun j hj => Kernel.setProcess_of_ne _ _ hj, Or.inr ?_⟩
    rw [Kernel.setProcess_same]
    unfold appInputPoll
    by_cases heq : (k.processes i).inputTail = (k.processes i).inputHead
    · left
      have heq' : (k.countSyscall.processes i).inputTail = (k.countSyscall.processes i).inputHead :=
        heq
      rw [if_pos heq']
      exact ⟨heq, rfl, rfl⟩
    · right
      have heq' : (k.countSyscall.processes i).inputTail ≠ (k.countSyscall.processes i).inputHead :=
        heq
      rw [if_neg heq']
      exact ⟨heq, rfl, rfl⟩
  · cases h
    exact ⟨rfl, fun _ _ => rfl, Or.inl ⟨rfl, rfl⟩⟩

theorem toUInt64_ne_wordMax (key : UInt8) : key.toUInt64 ≠ wordMax := by
  have hlt := key.toNat_lt
  have hmax : wordMax.toNat = 2 ^ 64 - 1 := rfl
  rw [Ne, ← UInt64.toNat_inj, UInt8.toNat_toUInt64]
  omega

/-- The handle an app is told when it asks for its input is good for polling. -/
theorem Authority.input (h : Authority p) (happ : p.appId ≠ 0) :
    (processCapability p (capabilityFind p.capabilities capabilityInput capRightRead)
      capabilityInput capRightRead p.appId.toUInt64).isSome = true := by
  have hprincipal : p.capabilities.principal ≠ 0 := by
    rw [h.principal]
    exact h.pid
  have hgrant : (capabilityInput, capRightRead ||| capRightWait, p.appId.toUInt64) ∈
      grantsOf p := by
    unfold grantsOf
    rw [if_neg happ]
    exact List.mem_cons_of_mem _ List.mem_cons_self
  obtain ⟨slot, -, htype, hrights, -⟩ := h.held _ hgrant
  rcases capabilityFind_cases p.capabilities capabilityInput capRightRead hprincipal with
    ⟨-, hnone⟩ | ⟨slot', ⟨htype', hrights'⟩, hfind⟩
  · have hread : (capRightRead ||| capRightWait) &&& capRightRead = capRightRead := by decide
    exact absurd ⟨htype, by rw [hrights]; exact hread⟩ (hnone slot)
  · have hresolved := (capabilityResolve_eq_some hprincipal h.fits _ capabilityInput capRightRead
      _).mpr ⟨slot', hfind, htype', hrights', rfl⟩
    have hown : (p.capabilities.entries slot').object = p.appId.toUInt64 :=
      h.own (show capabilityInput ≠ 0 by decide) hresolved
    unfold processCapability
    rw [hresolved, hown]
    dsimp only
    rw [if_neg fun hc => hc.2 rfl]
    rfl

theorem poll_answered {c : UserContext} (h : Authority (k.processes i)) (hrun : k.running = some i)
    (happ : (k.processes i).appId ≠ 0) (hc : c.rax = syscallInputPoll)
    (hhandle : c.rdi = capabilityFind (k.processes i).capabilities capabilityInput capRightRead) :
    ∃ k' c', syscallDispatch k c = .ok (k', c', .ret) ∧ c'.rax ≠ wordMax := by
  rw [syscallDispatch_poll hrun hc]
  unfold sysInputPoll
  rw [if_pos ⟨happ, by rw [hhandle]; exact h.input happ⟩]
  refine ⟨_, _, rfl, ?_⟩
  show (appInputPoll (k.processes i)).2 ≠ wordMax
  unfold appInputPoll
  split
  · show (0 : UInt64) ≠ wordMax
    decide
  · exact toUInt64_ne_wordMax _

/-! ## What a step does to the keys -/

/-- How the keys of the process in slot `i` change over one step: not at all; by a key that
    `process_app_input` accepted for it; by a key that its own poll returned; or because the
    process has just been loaded. -/
inductive KeyStep (k k' : Kernel) (i : Fin 8) : Prop
  | kept (hlive : k.Live i)
      (hacc : (k'.processes i).accepted = (k.processes i).accepted)
      (hret : (k'.processes i).returned = (k.processes i).returned)
  | accepted (appId : UInt32) (key : UInt8) (hlive : k.Live i)
      (happ : findApp k appId = some i) (hinput : processAppInput appId key k = (k', true))
      (hacc : (k'.processes i).accepted = (k.processes i).accepted ++ [key])
      (hret : (k'.processes i).returned = (k.processes i).returned)
  | returned (c c' : UserContext) (key : UInt8) (hlive : k.Live i)
      (hrun : k.running = some i) (hpoll : c.rax = syscallInputPoll)
      (hcall : syscallDispatch k c = .ok (k', c', .ret)) (hkey : c'.rax = key.toUInt64)
      (hacc : (k'.processes i).accepted = (k.processes i).accepted)
      (hret : (k'.processes i).returned = (k.processes i).returned ++ [key])
  | loaded (hfree : (k.processes i).state = .unused) (hacc : (k'.processes i).accepted = [])
      (hret : (k'.processes i).returned = [])

theorem Moves.keys {polls : Prop} {mem : Mem} {p' : Process} (h : Moves polls mem p action p')
    (hno : ¬ polls ∨ action ≠ .ret) : p'.accepted = p.accepted ∧ p'.returned = p.returned := by
  cases h with
  | poll hp _ =>
    rcases hno with hno | hno
    · exact absurd hp hno
    · exact absurd rfl hno
  | same | present | yield | exit | wait | preempt | fault => exact ⟨rfl, rfl⟩

/-- A poll, as an event of user code. -/
theorem userEvent_poll {event : UserEvent} (hrun : k.running = some i) (hpolls : event.polls)
    (hev : userEvent images k event = .ok (k', .ret)) (hlive : k.Live i) :
    KeyStep k k' i := by
  cases event with
  | store | interrupt => exact hpolls.elim
  | syscall c =>
    cases hcall : syscallDispatch k c with
    | error stop =>
      have hev' : (syscallDispatch k c >>= fun entry => .ok (entry.1, entry.2.2)) =
        .ok (k', .ret) := hev
      rw [hcall] at hev'
      cases hev'
    | ok entry =>
      obtain ⟨k₁, c', action⟩ := entry
      obtain ⟨rfl, -, hcase⟩ := inputPoll_cases hrun hpolls hcall
      rw [userEvent_syscall hcall] at hev
      cases hev
      rcases hcase with ⟨-, hsame⟩ | ⟨-, -, hsame⟩ | ⟨-, hrax, hsame⟩
      · exact .kept hlive (by rw [hsame]) (by rw [hsame])
      · exact .kept hlive (by rw [hsame]) (by rw [hsame])
      · exact .returned c c' _ hlive hrun hpolls hcall hrax (by rw [hsame]; rfl)
          (by rw [hsame]; rfl)

theorem Born.keys (h : Born pid appId p) : p.accepted = [] ∧ p.returned = [] :=
  ⟨congrArg Process.accepted h.core, congrArg Process.returned h.core⟩

/-- **What a step does to keys.** -/
theorem Change.keys (h : Change images k k' i (k.processes i) (k'.processes i))
    (hlive : k'.Live i) : KeyStep k k' i := by
  unfold Kernel.Live at hlive
  generalize hp : k'.processes i = p at h hlive
  cases h with
  | same | active => exact .kept hlive (by rw [hp]) (by rw [hp])
  | run hstate | wake hstate =>
    exact .kept (by rw [Kernel.Live, hstate]; decide) (by rw [hp]) (by rw [hp])
  | @moves event action _ hrun hstate hm hret =>
    have hold : k.Live i := by
      rw [Kernel.Live, hstate]
      decide
    by_cases hpoll : event.polls ∧ action = .ret
    · exact userEvent_poll hrun hpoll.1 (hret hpoll.2) hold
    · obtain ⟨hacc, hret⟩ := hm.keys (not_and_or.mp hpoll)
      exact .kept hold (by rw [hp, hacc]) (by rw [hp, hret])
  | key appId key happ hinput hlisten =>
    exact .accepted appId key (listening_live hlisten) happ hinput (by rw [hp]; rfl)
      (by rw [hp]; rfl)
  | load hfree _ _ hborn =>
    exact .loaded hfree (by rw [hp, hborn.keys.1]) (by rw [hp, hborn.keys.2])
  | failed _ hun => exact absurd hun hlive
  | release => exact absurd rfl hlive

/-! ## The queue as a whole -/

theorem toUInt64_eq_zero : key.toUInt64 = 0 ↔ key = 0 := by
  rw [← UInt64.toNat_inj, ← UInt8.toNat_inj, UInt8.toNat_toUInt64]
  exact Iff.rfl

/-- The answer to a poll that is not refused, in terms of the history. -/
theorem poll_answer {c c' : UserContext} (hlive : ∃ n, Queued (k.processes i) n)
    (hrun : k.running = some i) (hc : c.rax = syscallInputPoll)
    (h : syscallDispatch k c = .ok (k', c', action)) (hok : c'.rax ≠ wordMax) :
    action = .ret ∧
      (c'.rax = 0 ↔ (k.processes i).returned = (k.processes i).accepted) ∧
      (c'.rax ≠ 0 → ∃ key rest,
        (k.processes i).accepted = (k.processes i).returned ++ key :: rest ∧
        c'.rax = key.toUInt64 ∧
        (k'.processes i).returned = (k.processes i).returned ++ [key] ∧
        (k'.processes i).accepted = (k.processes i).accepted) := by
  obtain ⟨n, hq⟩ := hlive
  obtain ⟨hret, -, hcase⟩ := inputPoll_cases hrun hc h
  refine ⟨hret, ?_⟩
  rcases hcase with ⟨hbad, -⟩ | ⟨hempty, hzero, -⟩ | ⟨hne, hrax, hsame⟩
  · exact absurd hbad hok
  · -- nothing waits
    have hn := hq.empty_iff.mp hempty
    have hall : (k.processes i).returned = (k.processes i).accepted := by
      rw [hq.history, hn, ringContents_zero, List.append_nil]
    exact ⟨⟨fun _ => hall, fun _ => hzero⟩, fun hnz => absurd hzero hnz⟩
  · obtain ⟨m, -, -, hacc⟩ := hq.take hne
    have hkey : (k.processes i).input (k.processes i).inputTail ≠ 0 :=
      hq.nonzero _ (by rw [hacc]; exact List.mem_append_right _ List.mem_cons_self)
    have hnz : c'.rax ≠ 0 := by
      rw [hrax, Ne, toUInt64_eq_zero]
      exact hkey
    refine ⟨⟨fun hz => absurd hz hnz, fun heq => ?_⟩, fun _ => ⟨_, _, hacc, hrax, ?_, ?_⟩⟩
    · rw [heq] at hacc
      have := congrArg List.length hacc
      rw [List.length_append, List.length_cons] at this
      omega
    · rw [hsame]
      rfl
    · rw [hsame]
      rfl

/-- Whether a key is refused, for a process that listens. -/
theorem input_refused_iff {n : Nat} (hq : Queued (k.processes i) n)
    (happ : findApp k appId = some i) (hlisten : (k.processes i).listening = true)
    (hkey : key ≠ 0) :
    (processAppInput appId key k).2 = false ↔
      (k.processes i).accepted.length = (k.processes i).returned.length + 31 := by
  have hfull : (k.processes i).inputHead + 1 = (k.processes i).inputTail ↔
      (k.processes i).accepted.length = (k.processes i).returned.length + 31 := by
    rw [hq.full_iff, hq.length]
    omega
  rw [← hfull]
  unfold processAppInput
  rw [happ]
  dsimp only
  by_cases hroom : (k.processes i).inputHead + 1 = (k.processes i).inputTail
  · rw [if_pos (Or.inr (Or.inr hroom))]
    exact ⟨fun _ => hroom, fun _ => rfl⟩
  · rw [if_neg (by rw [not_or, not_or, Bool.not_eq_false]; exact ⟨hlisten, hkey, hroom⟩)]
    exact ⟨fun hc => Bool.noConfusion hc, fun hc => absurd hc hroom⟩

/-- **Keys reach an app as a lossless queue.** In every reachable state:
    the keys a process has polled are a prefix of those accepted for it, none of them zero;
    a poll that is not refused returns 0 exactly when every accepted key has been returned, and
    otherwise the next one, and with the handle an app is told for its input none is refused;
    a key that `process_app_input` takes is the last accepted one of the app's process, and no
    other record changes;
    a nonzero key for an active, presented process that is ready or blocked is refused exactly
    when 31 keys wait, and a key that is refused changes nothing;
    and over any step, the keys of a process change only by a key accepted for it, by a key its
    own poll returned, or by being loaded, when there are none. -/
theorem app_input_fifo (images : Images) (paging : PagingInfo) (k₀ k : Kernel)
    (h : Reachable images paging k₀ k) :
    (∀ i, (k.processes i).state ≠ .unused →
      (k.processes i).returned <+: (k.processes i).accepted ∧
        ∀ key ∈ (k.processes i).accepted, key ≠ 0) ∧
    (∀ i c k' c' action, k.running = some i → c.rax = syscallInputPoll →
      syscallDispatch k c = .ok (k', c', action) → c'.rax ≠ wordMax →
      action = .ret ∧
        (c'.rax = 0 ↔ (k.processes i).returned = (k.processes i).accepted) ∧
        (c'.rax ≠ 0 → ∃ key rest,
          (k.processes i).accepted = (k.processes i).returned ++ key :: rest ∧
          c'.rax = key.toUInt64 ∧
          (k'.processes i).returned = (k.processes i).returned ++ [key] ∧
          (k'.processes i).accepted = (k.processes i).accepted)) ∧
    (∀ frames i c, KernelHeld k₀.phys paging frames → k.running = some i →
      (k.processes i).appId ≠ 0 → c.rax = syscallInputPoll →
      c.rdi = capabilityFind (k.processes i).capabilities capabilityInput capRightRead →
      ∃ k' c', syscallDispatch k c = .ok (k', c', .ret) ∧ c'.rax ≠ wordMax) ∧
    (∀ appId key k', processAppInput appId key k = (k', true) →
      ∃ i, findApp k appId = some i ∧
        (k'.processes i).accepted = (k.processes i).accepted ++ [key] ∧
        (k'.processes i).returned = (k.processes i).returned ∧
        ∀ j, j ≠ i → k'.processes j = k.processes j) ∧
    (∀ appId i key, findApp k appId = some i → (k.processes i).active = true →
      (k.processes i).presentValid = true →
      ((k.processes i).state = .ready ∨ (k.processes i).state = .blocked) → key ≠ 0 →
      ((processAppInput appId key k).2 = false ↔
        (k.processes i).accepted.length = (k.processes i).returned.length + 31)) ∧
    (∀ appId key, (processAppInput appId key k).2 = false → (processAppInput appId key k).1 = k) ∧
    (∀ k' i, Step images k k' → (k'.processes i).state ≠ .unused → KeyStep k k' i) := by
  have hsched := h.scheduled
  have hord := h.ordered
  have hrunning : ∀ i, k.running = some i → (k.processes i).state ≠ .unused := by
    intro i hrun
    rw [(hsched.running i).mpr (running_cases hrun).1]
    decide
  refine ⟨?_, ?_, ?_, ?_, ?_, ?_, fun k' i hs hlive => (hs.change hsched i).keys hlive⟩
  · intro i hlive
    obtain ⟨n, hq⟩ := hord i hlive
    exact ⟨⟨_, hq.history.symm⟩, hq.nonzero⟩
  · intro i c k' c' action hrun hc hcall hok
    exact poll_answer (hord i (hrunning i hrun)) hrun hc hcall hok
  · intro frames i c hheld hrun happ hc hhandle
    exact poll_answered ((h.sound hheld).wired.authority i (hrunning i hrun)) hrun happ hc hhandle
  · intro appId key k' htaken
    rcases processAppInput_cases appId key k with heq | ⟨i, happ, -, -, -, hp, -, -⟩
    · rw [htaken] at heq
      cases heq
    · rw [htaken] at hp
      refine ⟨i, happ, ?_, ?_, fun j hj => ?_⟩
      · rw [hp, update_self]
        rfl
      · rw [hp, update_self]
        rfl
      · rw [hp, update_of_ne hj]
  · intro appId i key happ hactive hpresent hstate hkey
    obtain ⟨n, hq⟩ := hord i (findApp_cases happ).1
    have hlisten : (k.processes i).listening = true := by
      unfold Process.listening
      rw [hactive, hpresent, Bool.true_and, Bool.true_and, Bool.or_eq_true, decide_eq_true_eq,
        decide_eq_true_eq]
      exact hstate
    exact input_refused_iff hq happ hlisten hkey
  · intro appId key hfalse
    rcases processAppInput_cases appId key k with heq | ⟨i, -, -, -, -, -, -, htrue⟩
    · rw [heq]
    · rw [hfalse] at htrue
      cases htrue

/-- The third app has two keys accepted and polls the first of them. -/
theorem app_input_fifo_sample :
    ∃ k c k' c', Reachable presentingImages sampleKernel (.before sampleMachine) k ∧
      (k.processes (catalogSlot 2)).accepted = [97, 98] ∧ c.rax = syscallInputPoll ∧
      syscallDispatch k c = .ok (k', c', .ret) ∧ c'.rax = 97 ∧
      (k'.processes (catalogSlot 2)).returned = [97] := by
  obtain ⟨k, k₁, k₂, hreach, h₁, h₂, hrun, happ, hacc, hret⟩ := sampleRuns_typed
  simp only [List.forall_mem_cons] at hreach
  obtain ⟨hk, hk₁, hk₂, -⟩ := hreach
  obtain ⟨i, hi, hacc₁, hret₁, -⟩ := (app_input_fifo _ _ _ k hk).2.2.2.1 3 97 k₁ h₁
  obtain ⟨j, hj, hacc₂, hret₂, -⟩ := (app_input_fifo _ _ _ k₁ hk₁).2.2.2.1 3 98 k₂ h₂
  have hslot : ∀ {k i}, findApp k 3 = some i → i = catalogSlot 2 := by
    intro k i h
    obtain ⟨-, index, rfl, hindex⟩ := findApp_cases h
    clear h
    decide +revert
  obtain rfl := hslot hi
  obtain rfl := hslot hj
  have hself := enter_self k₂ (catalogSlot 2)
  rw [hacc₁, hacc] at hacc₂
  rw [hret₁, hret] at hret₂
  obtain ⟨-, hanswer, htold, -⟩ := app_input_fifo _ _ _ _ hk₂
  obtain ⟨k', c', hcall, hok⟩ := htold [256] (catalogSlot 2) { UserContext.zero with
      rax := syscallInputPoll
      rdi := capabilityFind ((k₂.enter (catalogSlot 2)).processes (catalogSlot 2)).capabilities
        capabilityInput capRightRead } sampleMachine_kernelHeld hrun
    (by rw [hself]; show (k₂.processes _).appId ≠ 0; rw [happ]; decide) rfl rfl
  obtain ⟨-, hzero, hnext⟩ := hanswer _ _ k' c' .ret hrun rfl hcall hok
  rw [hself] at hzero hnext
  dsimp only at hzero hnext
  rw [hacc₂, hret₂] at hzero hnext
  obtain ⟨key, rest, hsplit, hrax, hret', -⟩ := hnext (by rw [Ne, hzero]; decide)
  obtain ⟨rfl, rfl⟩ := List.cons.inj hsplit
  exact ⟨_, _, k', c', hk₂, by rw [hself]; exact hacc₂, rfl, hcall, hrax, hret'⟩

end ArgusOs.Runtime
