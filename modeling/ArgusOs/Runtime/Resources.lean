/-
  What a step does to the things processes own.

  Memory pages, endpoints and capabilities change hands in loads and releases only. `Kept` is
  every other step: no record changes what it owns, and all that can happen to memory is one
  store of the process that runs. `Step.resources` is the inversion of steps into these three
  cases, and the invariants on ownership are proved from it.
-/
import ArgusOs.Runtime.Records

namespace ArgusOs.Runtime

open Lib Memory Capability Ipc Elf Function

/-! ## What a record keeps -/

/-- The record has the same identity, pages and authority. -/
structure Static (p p' : Process) : Prop extends SameData p p' where
  pid : p'.pid = p.pid
  appId : p'.appId = p.appId
  stackVirtual : p'.stackVirtual = p.stackVirtual
  capabilities : p'.capabilities = p.capabilities
  ipcEndpoint : p'.ipcEndpoint = p.ipcEndpoint

theorem Static.refl (p : Process) :
    Static p p := ⟨⟨rfl, rfl, rfl, rfl, rfl⟩, rfl, rfl, rfl, rfl, rfl⟩

/-- No entry from user code changes what the process owns. -/
theorem Moves.static {polls : Prop} {mem : Mem} {p p' : Process} {action : UserAction}
    (h : Moves polls mem p action p') : Static p p' := by
  cases h with
  | same => exact .refl p
  | poll | present | yield | exit | wait | preempt | fault =>
    exact ⟨⟨rfl, rfl, rfl, rfl, rfl⟩, rfl, rfl, rfl, rfl, rfl⟩

/-- The record keeps what it owns, and a process stays a process. -/
structure KeptRecord (p p' : Process) : Prop extends Static p p' where
  live : p'.state = .unused ↔ p.state = .unused

theorem KeptRecord.refl (p : Process) : KeptRecord p p := ⟨.refl p, Iff.rfl⟩

theorem keptRecord_of_live {p p' : Process} (h : Static p p') (hp : p.state ≠ .unused)
    (hp' : p'.state ≠ .unused) : KeptRecord p p' :=
  ⟨h, fun hc => absurd hc hp', fun hc => absurd hc hp⟩

structure Kept (k k' : Kernel) : Prop where
  paging : k'.kernelPaging = k.kernelPaging
  records : ∀ i, KeptRecord (k.processes i) (k'.processes i)
  effect : (k'.phys = k.phys ∧ k'.ipc = k.ipc ∧ k'.lateStores = k.lateStores) ∨
    ∃ i, (k.processes i).state = .running ∧ (Quiet k i → UserEffect k i k')

theorem Plain.kept {k k' : Kernel} (h : Plain k k') : Kept k k' where
  paging := h.kernel.paging
  records := fun i => by
    rw [h.processes]
    exact .refl _
  effect := Or.inl ⟨h.phys, h.ipc, h.late⟩

/-- One record changes, and nothing else that matters. -/
theorem kept_of_update {k k' : Kernel} {i : Fin 8} {p : Process}
    (hpaging : k'.kernelPaging = k.kernelPaging)
    (hp : k'.processes = update k.processes i p) (hrecord : KeptRecord (k.processes i) p)
    (he : k'.phys = k.phys ∧ k'.ipc = k.ipc ∧ k'.lateStores = k.lateStores) : Kept k k' where
  paging := hpaging
  records := by
    intro j
    by_cases hj : j = i
    · rw [hp, hj, update_self]
      exact hrecord
    · rw [hp, update_of_ne hj]
      exact .refl _
  effect := Or.inl he

theorem UserStep.kept {polls : Prop} {k k' : Kernel} {i : Fin 8} {action : UserAction}
    (h : UserStep polls k i action k') (hrun : (k.processes i).state = .running) : Kept k k' where
  paging := h.kernel.paging
  records := by
    intro j
    by_cases hj : j = i
    · rw [hj]
      have hlive : k.Live i := by
        rw [Kernel.Live, hrun]
        decide
      exact keptRecord_of_live h.moves.static hlive (h.moves.live.2.2 hlive)
    · rw [h.others j hj]
      exact .refl _
  effect := Or.inr ⟨i, hrun, h.effect⟩

/-- Giving the processor back afterwards. -/
theorem Kept.leave {k k' : Kernel} (h : Kept k k') : Kept k k'.leave where
  paging := h.paging
  records := h.records
  effect := by
    rcases h.effect with hsame | ⟨i, hrun, heffect⟩
    · exact Or.inl hsame
    · refine Or.inr ⟨i, hrun, fun hq => ?_⟩
      cases heffect hq with
      | none hphys hipc hlate => exact .none hphys hipc hlate
      | store address physical flags value haddress hflags hphys hipc hlate hprocesses =>
        exact .store address physical flags value haddress hflags hphys hipc hlate hprocesses

theorem wakeBlockedProcesses_kept (k : Kernel) : Kept k (wakeBlockedProcesses k) where
  paging := rfl
  records := by
    intro i
    by_cases hw : k.wakes i = true
    · rw [wake_woken hw]
      refine keptRecord_of_live ⟨⟨rfl, rfl, rfl, rfl, rfl⟩, rfl, rfl, rfl, rfl, rfl⟩ ?_ ?_
      · rw [wakes_blocked hw]
        decide
      · intro hc
        cases hc
    · rw [wake_kept hw]
      exact .refl _
  effect := Or.inl ⟨rfl, rfl, rfl⟩

theorem processAppSetActive_kept (k : Kernel) (appId : UInt32) :
    Kept k (processAppSetActive k appId) where
  paging := rfl
  records := by
    intro i
    unfold processAppSetActive
    dsimp only
    split
    · exact ⟨⟨⟨rfl, rfl, rfl, rfl, rfl⟩, rfl, rfl, rfl, rfl, rfl⟩, Iff.rfl⟩
    · exact .refl _
  effect := Or.inl ⟨rfl, rfl, rfl⟩

theorem processAppInput_kept (appId : UInt32) (key : UInt8) (k : Kernel) :
    Kept k (processAppInput appId key k).1 := by
  unfold processAppInput
  split
  · exact Plain.kept rfl
  · next i _ =>
    split
    · exact Plain.kept rfl
    · next hgo =>
      rw [not_or, Bool.not_eq_false] at hgo
      refine @kept_of_update _ _ i ((k.processes i).pushKey key) rfl rfl ?_ ⟨rfl, rfl, rfl⟩
      refine keptRecord_of_live ⟨⟨rfl, rfl, rfl, rfl, rfl⟩, rfl, rfl, rfl, rfl, rfl⟩
        (listening_live hgo.1) ?_
      rw [pushKey_state hgo.1]
      decide

/-! ## Loads -/

/-- A load into slot `i`: of a flat probe, or of the app of a catalog entry. -/
def Loads (images : Images) (k : Kernel) (i : Fin 8) (appId : UInt32) (l : Loading) (done : Bool) :
    Prop :=
  (appId = 0 ∧
    ∃ image, loadFlatProbe k.kernelPaging (k.loading i) k.nextPid image = .ok (l, done)) ∨
  ∃ index, appId = catalogAppId index ∧
    loadElfApp k.kernelPaging (k.loading i) k.nextPid appId (images.apps index) = .ok (l, done)

theorem Loads.spec {images : Images} {k : Kernel} {i : Fin 8} {appId : UInt32} {l : Loading}
    {done : Bool} (h : Loads images k i appId l done) (hpre : LoadPre k.kernelPaging k.phys)
    (hidle : Idle (k.processes i)) :
    (done = true ∧ ∃ x map entry,
      LoadDone k.kernelPaging (k.loading i) l k.nextPid appId x map entry) ∨
    (done = false ∧ Failed (k.loading i) l) := by
  rcases h with ⟨rfl, image, hload⟩ | ⟨index, rfl, hload⟩
  · exact loadFlatProbe_spec (l := k.loading i) hpre hidle k.nextPid image _ hload
  · rcases loadElfApp_spec (l := k.loading i) hpre hidle k.nextPid (catalogAppId index)
      (images.apps index) _ hload with ⟨hd, elf, x, map, -, hdone, -⟩ | hfailed
    · exact Or.inl ⟨hd, x, map, elf.entry, hdone⟩
    · exact Or.inr hfailed

/-! ## Inversion -/

/-- The two kernels agree on everything processes own. -/
structure SameHold (k k' : Kernel) : Prop where
  phys : k'.phys = k.phys
  ipc : k'.ipc = k.ipc
  processes : k'.processes = k.processes
  paging : k'.kernelPaging = k.kernelPaging
  late : k'.lateStores = k.lateStores

inductive Resources (images : Images) (k k' : Kernel) : Prop
  | keep (h : Kept k k')
  | load (i : Fin 8) (appId : UInt32) (l : Loading) (done : Bool) (hplace : Belongs i appId)
      (hfree : (k.processes i).state = .unused) (hload : Loads images k i appId l done)
      (hsame : SameHold (k.store i l) k')
  | release (i : Fin 8) (happ : 2 ≤ i.val) (hlive : k.Live i)
      (hsame : SameHold (k.release i) k')

/-- **Inversion of steps, by what processes own.** -/
theorem Step.resources {images : Images} {k k' : Kernel} (hk : Scheduled k)
    (hs : Step images k k') : Resources images k k' := by
  cases hs with
  | enter i hcur hconf hready =>
    refine .keep (@kept_of_update _ _ i { k.processes i with state := .running } rfl rfl ?_
      ⟨rfl, rfl, rfl⟩)
    refine keptRecord_of_live ⟨⟨rfl, rfl, rfl, rfl, rfl⟩, rfl, rfl, rfl, rfl, rfl⟩ ?_ ?_
    · rw [hready]
      decide
    · intro hc
      cases hc
  | user i event hrun hev =>
    exact .keep ((userEvent_step hrun images event _ hev).kept
      ((hk.running i).mpr (running_cases hrun).1))
  | leave i event action hrun hev _ =>
    exact .keep ((userEvent_step hrun images event _ hev).kept
      ((hk.running i).mpr (running_cases hrun).1)).leave
  | wake _ => exact .keep (wakeBlockedProcesses_kept k)
  | setActive appId _ => exact .keep (processAppSetActive_kept k appId)
  | input appId key _ => exact .keep (processAppInput_kept appId key k)
  | timerTick => exact .keep (interruptHandler_plain k apicTimerVector).kept
  | cursor position passed _ =>
    exact .keep ⟨rfl, fun i => .refl _, Or.inl ⟨rfl, rfl, rfl⟩⟩
  | loadProbe image preemption done hcur hbare hload =>
    obtain ⟨l, hl, rfl⟩ := loaded_eq hload
    refine .load processTestSlot 0 l done (Or.inl ⟨Nat.le_refl 2, rfl⟩) (hbare _ (Nat.le_refl 2))
      (Or.inl ⟨rfl, image, hl⟩) ?_
    split
    · exact ⟨rfl, rfl, rfl, rfl, rfl⟩
    · exact ⟨rfl, rfl, rfl, rfl, rfl⟩
  | loadApp index done hcur hfree hload =>
    obtain ⟨l, hl, rfl⟩ := loaded_eq hload
    refine .load (catalogSlot index) (catalogAppId index) l done (Or.inr ⟨index, rfl, rfl⟩) hfree
      (Or.inr ⟨index, rfl, hl⟩) ?_
    split
    · exact ⟨rfl, rfl, rfl, rfl, rfl⟩
    · exact ⟨rfl, rfl, rfl, rfl, rfl⟩
  | release i hcur happ hlive => exact .release i happ hlive ⟨rfl, rfl, rfl, rfl, rfl⟩
  | bare _ _ => exact .keep ⟨rfl, fun i => .refl _, Or.inl ⟨rfl, rfl, rfl⟩⟩

end ArgusOs.Runtime
