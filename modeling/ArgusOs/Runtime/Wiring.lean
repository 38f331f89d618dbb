/-
  Who may do what, and who listens where.

  `Wired` is the other half of ownership: a process holds the capabilities it was born with
  and no others, every app has an endpoint of its own, the used endpoints are exactly those,
  and nothing is ever waiting in one. It follows that no process can send and none has a
  message to receive (`Wired.quiet`), so system calls never touch the endpoint table.

  `Reachable.sound` puts it together with `Scheduled` and `Housed`: what holds of the kernel
  from `process_init` on.
-/
import ArgusOs.Memory.KernelPaging
import ArgusOs.Runtime.Housing

namespace ArgusOs.Runtime

open Lib Memory Capability Ipc Elf Function

/-! ## Authority -/

/-- What a process is granted: a probe nothing, an app its clock, input, surface and endpoint. -/
def grantsOf (p : Process) : List GrantSpec :=
  if p.appId = 0 then [] else appGrants p.appId p.surfacePhysical p.ipcEndpoint

structure Authority (p : Process) : Prop where
  pid : p.pid ≠ 0
  principal : p.capabilities.principal = p.pid
  fits : TypesFit p.capabilities
  entries : EntriesFrom p.capabilities (grantsOf p)
  held : ∀ g ∈ grantsOf p, ∃ slot, (p.capabilities.entries slot).type ≠ 0 ∧
    Holds (p.capabilities.entries slot) g

theorem Authority.static {p p' : Process} (h : Authority p) (hs : Static p p') : Authority p' := by
  have hgrants : grantsOf p' = grantsOf p := by
    unfold grantsOf
    rw [hs.appId, hs.surface, hs.ipcEndpoint]
  refine ⟨?_, ?_, ?_, ?_, ?_⟩
  · rw [hs.pid]
    exact h.pid
  · rw [hs.capabilities, hs.pid]
    exact h.principal
  · rw [hs.capabilities]
    exact h.fits
  · rw [hs.capabilities, hgrants]
    exact h.entries
  · rw [hs.capabilities, hgrants]
    exact h.held

/-- The grant lets its holder neither send nor reach the network. -/
def Harmless (g : GrantSpec) : Prop :=
  g.2.1 &&& capRightSend = 0 ∧ g.1 ≠ capabilityAnonymousStream ∧ g.1 ≠ capabilityRawNetwork

/-- Which object is granted plays no part. -/
theorem harmless_object {type : UInt32} {rights : UInt16} (h : Harmless (type, rights, 0))
    (object : UInt64) : Harmless (type, rights, object) :=
  h

variable {p : Process}

theorem grants_harmless {g : GrantSpec} (h : g ∈ grantsOf p) : Harmless g := by
  unfold grantsOf at h
  split at h
  · cases h
  · simp only [appGrants, List.mem_cons, List.not_mem_nil, or_false] at h
    rcases h with rfl | rfl | rfl | rfl
    · exact harmless_object ⟨by decide, by decide, by decide⟩ _
    · exact harmless_object ⟨by decide, by decide, by decide⟩ _
    · exact harmless_object ⟨by decide, by decide, by decide⟩ _
    · exact harmless_object ⟨by decide, by decide, by decide⟩ _

/-- No entry of the table lets the process send or reach the network. -/
theorem Authority.confined (h : Authority p) {slot : Fin 16}
    (ht : (p.capabilities.entries slot).type ≠ 0) :
    (p.capabilities.entries slot).rights &&& capRightSend = 0 ∧
      (p.capabilities.entries slot).type.toUInt32 ≠ capabilityAnonymousStream ∧
      (p.capabilities.entries slot).type.toUInt32 ≠ capabilityRawNetwork := by
  obtain ⟨g, hg, htype, hrights, -⟩ := h.entries slot ht
  rw [htype, hrights]
  exact grants_harmless hg

theorem Authority.no_send (h : Authority p) (handle expected : UInt64) :
    processCapability p handle capabilityIpc capRightSend expected = none := by
  unfold processCapability
  cases hres : capabilityResolve p.capabilities handle capabilityIpc capRightSend with
  | none => rfl
  | some object =>
    obtain ⟨slot, -, htype, hrights, -⟩ := (capabilityResolve_eq_some (by
      rw [h.principal]
      exact h.pid) h.fits handle capabilityIpc capRightSend object).mp hres
    have hne : (p.capabilities.entries slot).type ≠ 0 := by
      intro hc
      rw [hc] at htype
      exact absurd htype (by decide)
    rw [(h.confined hne).1] at hrights
    exact absurd hrights (by decide)

/-! ## Endpoints -/

/-- The process is an app. -/
def Process.isApp (p : Process) : Bool := p.state ≠ .unused && p.appId ≠ 0

theorem isApp_iff : p.isApp = true ↔ p.state ≠ .unused ∧ p.appId ≠ 0 := by
  simp [Process.isApp]

theorem KeptRecord.isApp {p' : Process} (h : KeptRecord p p') : p'.isApp = p.isApp := by
  rw [Bool.eq_iff_iff, isApp_iff, isApp_iff, h.appId, ne_eq, ne_eq, h.live]

/-- The endpoint of the process is there and takes its messages. -/
def Linked (ipc : Endpoints) (p : Process) : Prop :=
  ∃ slot, resolveEndpoint ipc p.ipcEndpoint = some slot ∧ (ipc slot).receiverPid = p.pid

theorem Linked.keep {ipc ipc' : Endpoints} (h : Linked ipc p)
    (hsame : ∀ slot, resolveEndpoint ipc p.ipcEndpoint = some slot → ipc' slot = ipc slot) :
    Linked ipc' p := by
  obtain ⟨slot, hslot, hpid⟩ := h
  have heq := hsame slot hslot
  rw [resolveEndpoint_eq_some] at hslot
  refine ⟨slot, ?_, ?_⟩
  · rw [resolveEndpoint_eq_some, heq]
    exact hslot
  · rw [heq]
    exact hpid

structure Wired (k : Kernel) : Prop where
  authority : ∀ i, k.Live i → Authority (k.processes i)
  probe : ∀ i, k.Live i → (k.processes i).appId = 0 →
    (k.processes i).ipcEndpoint = 0
  linked : ∀ i, (k.processes i).isApp = true → Linked k.ipc (k.processes i)
  apart : ∀ i j, (k.processes i).isApp = true → (k.processes j).isApp = true →
    (k.processes i).ipcEndpoint = (k.processes j).ipcEndpoint → i = j
  count : slotCount (fun slot => (k.ipc slot).used) = slotCount fun i => (k.processes i).isApp
  empty : ∀ slot, (k.ipc slot).used = true → (k.ipc slot).count = 0

variable {i : Fin 8}

section Wired

variable {k k' : Kernel} (h : Wired k)

include h

theorem Wired.quiet (hlive : k.Live i) : Quiet k i where
  send := fun handle => (h.authority i hlive).no_send handle wordMax
  pending := by
    intro endpoint
    unfold ipcPending
    split
    · rfl
    · next slot hslot =>
      rw [h.empty slot ((resolveEndpoint_eq_some _ _ _).mp hslot).1]
      split
      · rfl
      · rfl

/-- Records keep what they own and the endpoint table stays. -/
theorem Wired.keep (hk : Kept k k') : Wired k' := by
  have hipc : k'.ipc = k.ipc := by
    rcases hk.effect with ⟨-, hipc, -⟩ | ⟨i, hrun, heffect⟩
    · exact hipc
    · cases heffect (h.quiet (by rw [Kernel.Live, hrun]; decide)) with
      | none _ hipc _ | store _ _ _ _ _ _ _ hipc _ => exact hipc
  have happ := fun i => (hk.records i).isApp
  have hlive : ∀ i, k'.Live i → k.Live i :=
    fun i hi hc => hi ((hk.records i).live.mpr hc)
  refine ⟨?_, ?_, ?_, ?_, ?_, ?_⟩
  · intro i hi
    exact (h.authority i (hlive i hi)).static (hk.records i).toStatic
  · intro i hi h0
    rw [(hk.records i).appId] at h0
    rw [(hk.records i).ipcEndpoint]
    exact h.probe i (hlive i hi) h0
  · intro i hi
    rw [happ i] at hi
    unfold Linked
    rw [hipc, (hk.records i).ipcEndpoint, (hk.records i).pid]
    exact h.linked i hi
  · intro i j hi hj heq
    rw [happ i] at hi
    rw [happ j] at hj
    rw [(hk.records i).ipcEndpoint, (hk.records j).ipcEndpoint] at heq
    exact h.apart i j hi hj heq
  · rw [hipc, h.count]
    exact slotCount_congr fun i => (happ i).symm
  · rw [hipc]
    exact h.empty

section

variable (hother : ∀ j, j ≠ i → k'.processes j = k.processes j)

include hother

/-- Another process in slot `i`: what it has to bring along, and what the others have to keep. -/
theorem Wired.replace (hauth : k'.Live i → Authority (k'.processes i))
    (hprobe : k'.Live i → (k'.processes i).appId = 0 → (k'.processes i).ipcEndpoint = 0)
    (happ : (k'.processes i).isApp = true → Linked k'.ipc (k'.processes i) ∧
      ∀ j, j ≠ i → (k.processes j).isApp = true →
        (k.processes j).ipcEndpoint ≠ (k'.processes i).ipcEndpoint)
    (hkept : ∀ j, j ≠ i → (k.processes j).isApp = true → Linked k'.ipc (k.processes j))
    (hcount : slotCount (fun slot => (k'.ipc slot).used) =
      slotCount fun j => (k'.processes j).isApp)
    (hempty : ∀ slot, (k'.ipc slot).used = true → (k'.ipc slot).count = 0) : Wired k' := by
  refine ⟨?_, ?_, ?_, ?_, hcount, hempty⟩
  · intro j hj
    by_cases hji : j = i
    · rw [hji] at hj ⊢
      exact hauth hj
    · unfold Kernel.Live at hj
      rw [hother j hji] at hj ⊢
      exact h.authority j hj
  · intro j hj h0
    by_cases hji : j = i
    · rw [hji] at hj h0 ⊢
      exact hprobe hj h0
    · unfold Kernel.Live at hj
      rw [hother j hji] at hj h0 ⊢
      exact h.probe j hj h0
  · intro j hj
    by_cases hji : j = i
    · rw [hji] at hj ⊢
      exact (happ hj).1
    · rw [hother j hji] at hj ⊢
      exact hkept j hji hj
  · intro j j' hj hj' heq
    by_cases hji : j = i
    · by_cases hji' : j' = i
      · rw [hji, hji']
      · rw [hother j' hji'] at hj' heq
        rw [hji] at hj heq
        exact absurd heq.symm ((happ hj).2 j' hji' hj')
    · rw [hother j hji] at hj heq
      by_cases hji' : j' = i
      · rw [hji'] at hj' heq
        exact absurd heq ((happ hj').2 j hji hj)
      · rw [hother j' hji'] at hj' heq
        exact h.apart j j' hj hj' heq

/-- A slot that holds no app before and after. -/
theorem Wired.same_apps (hbefore : (k.processes i).isApp = false)
    (hafter : (k'.processes i).isApp = false)
    (hnew : k'.Live i → Authority (k'.processes i) ∧ (k'.processes i).ipcEndpoint = 0)
    (hipc : SameUse k.ipc k'.ipc) : Wired k' := by
  have happ : ∀ j, (k'.processes j).isApp = (k.processes j).isApp := by
    intro j
    by_cases hj : j = i
    · rw [hj, hbefore, hafter]
    · rw [hother j hj]
  refine h.replace hother (fun hj => (hnew hj).1) (fun hj _ => (hnew hj).2)
    (fun hc => absurd hc (by rw [hafter]; decide)) ?_ ?_ ?_
  · intro j _ hj
    refine (h.linked j hj).keep ?_
    intro slot hslot
    rcases hipc slot with heq | ⟨hfree, -⟩
    · exact heq
    · rw [((resolveEndpoint_eq_some _ _ _).mp hslot).1] at hfree
      cases hfree
  · rw [slotCount_congr happ, ← h.count]
    apply slotCount_congr
    intro slot
    rcases hipc slot with heq | ⟨hfree, hfree'⟩
    · rw [heq]
    · rw [hfree, hfree']
  · intro slot hused
    rcases hipc slot with heq | ⟨-, hfree⟩
    · rw [heq] at hused ⊢
      exact h.empty slot hused
    · rw [hfree] at hused
      cases hused

/-- An app appears in slot `i`, with the endpoint that was created for it. -/
theorem Wired.add_app (hbefore : (k.processes i).isApp = false)
    (hafter : (k'.processes i).isApp = true) (hauth : Authority (k'.processes i))
    (hcreate : ipcEndpointCreate k.ipc (k'.processes i).pid =
      (k'.ipc, (k'.processes i).ipcEndpoint))
    (hend : (k'.processes i).ipcEndpoint ≠ 0) : Wired k' := by
  rcases ipcEndpointCreate_cases k.ipc (k'.processes i).pid with ⟨heq, -⟩ | ⟨-, slot, -, hfree, heq⟩
  · rw [hcreate, Prod.mk.injEq] at heq
    exact absurd heq.2 hend
  rw [hcreate, Prod.mk.injEq] at heq
  obtain ⟨hipc, hhandle⟩ := heq
  have hnew : k'.ipc slot = createdEndpoint (k.ipc slot) (k'.processes i).pid := by
    rw [hipc, update_self]
  have hold : ∀ s, s ≠ slot → k'.ipc s = k.ipc s := by
    intro s hs
    rw [hipc, update_of_ne hs]
  have hresolve : resolveEndpoint k'.ipc (k'.processes i).ipcEndpoint = some slot := by
    rw [resolveEndpoint_eq_some, hnew]
    exact ⟨rfl, hhandle.symm⟩
  -- the endpoints of the other apps are used, so they are not the new one
  have hlinked : ∀ j, j ≠ i → (k.processes j).isApp = true → Linked k'.ipc (k.processes j) := by
    intro j _ hj
    refine (h.linked j hj).keep ?_
    intro s hs
    apply hold
    intro hc
    rw [hc, resolveEndpoint_eq_some, hfree] at hs
    cases hs.1
  have hdistinct : ∀ j, j ≠ i → (k.processes j).isApp = true →
      (k.processes j).ipcEndpoint ≠ (k'.processes i).ipcEndpoint := by
    intro j hji hj hc
    obtain ⟨s, hs, -⟩ := h.linked j hj
    rw [resolveEndpoint_eq_some, hc, hhandle] at hs
    have hsame := (makeEndpoint_inj.mp hs.2).1
    rw [hsame, hfree] at hs
    cases hs.1
  refine h.replace hother (fun _ => hauth) (fun _ h0 => absurd h0 (isApp_iff.mp hafter).2)
    (fun _ => ⟨⟨slot, hresolve, by rw [hnew]; rfl⟩, hdistinct⟩) hlinked ?_ ?_
  · have happs := slotCount_of_update (p := fun j => (k.processes j).isApp)
      (q := fun j => (k'.processes j).isApp) hbefore hafter fun j hj => by rw [hother j hj]
    have hused := slotCount_of_update (p := fun s => (k.ipc s).used)
      (q := fun s => (k'.ipc s).used) hfree (by rw [hnew]; rfl) fun s hs => by rw [hold s hs]
    have hcount := h.count
    omega
  · intro s hused
    by_cases hs : s = slot
    · rw [hs, hnew]
      rfl
    · rw [hold s hs] at hused ⊢
      exact h.empty s hused

/-- The app in slot `i` goes, and its endpoint with it. -/
theorem Wired.remove_app (hbefore : (k.processes i).isApp = true)
    (hafter : (k'.processes i).state = .unused)
    (hipc : k'.ipc = releasedIpc k.ipc (k.processes i).ipcEndpoint) : Wired k' := by
  obtain ⟨slot, hslot, -⟩ := h.linked i hbefore
  have hhandle := (resolveEndpoint_eq_some _ _ _).mp hslot
  have hend : (k.processes i).ipcEndpoint ≠ 0 := by
    rw [← hhandle.2]
    exact makeEndpoint_ne_zero slot _
  have hdestroy : k'.ipc = update k.ipc slot
      { IpcEndpoint.zero with generation := nextGen (k.ipc slot).generation } := by
    rw [hipc, releasedIpc, if_neg hend]
    rcases ipcEndpointDestroy_cases k.ipc (k.processes i).ipcEndpoint with
      ⟨-, hnone⟩ | ⟨slot', hslot', hd⟩
    · rw [hslot] at hnone
      cases hnone
    · rw [hslot, Option.some.injEq] at hslot'
      rw [hd, ← hslot']
  have hfree : (k'.ipc slot).used = false := by
    rw [hdestroy, update_self]
    rfl
  have hold : ∀ s, s ≠ slot → k'.ipc s = k.ipc s := by
    intro s hs
    rw [hdestroy, update_of_ne hs]
  have hgone : (k'.processes i).isApp = false := by
    unfold Process.isApp
    rw [hafter]
    rfl
  refine h.replace hother (fun hc => absurd hafter hc) (fun hc _ => absurd hafter hc)
    (fun hc => absurd hc (by rw [hgone]; decide)) ?_ ?_ ?_
  · intro j hji hj
    refine (h.linked j hj).keep ?_
    intro s hs
    apply hold
    intro hc
    rw [hc, resolveEndpoint_eq_some] at hs
    exact hji (h.apart j i hj hbefore (hs.2.symm.trans hhandle.2))
  · have happs := slotCount_of_update (p := fun j => (k'.processes j).isApp)
      (q := fun j => (k.processes j).isApp) hgone hbefore fun j hj => by rw [hother j hj]
    have hused := slotCount_of_update (p := fun s => (k'.ipc s).used)
      (q := fun s => (k.ipc s).used) hfree hhandle.1 fun s hs => by rw [hold s hs]
    have hcount := h.count
    omega
  · intro s hused
    by_cases hs : s = slot
    · rw [hs, hfree] at hused
      cases hused
    · rw [hold s hs] at hused ⊢
      exact h.empty s hused

end

theorem Wired.release (hlive : k.Live i)
    (hsame : SameHold (k.release i) k') : Wired k' := by
  have hother : ∀ j, j ≠ i → k'.processes j = k.processes j := by
    intro j hj
    rw [hsame.processes]
    exact store_of_ne k _ hj
  have hself : k'.processes i = .zero := by
    rw [hsame.processes]
    exact store_same k i _
  have hipc : k'.ipc = releasedIpc k.ipc (k.processes i).ipcEndpoint := hsame.ipc
  by_cases happ : (k.processes i).isApp = true
  · exact h.remove_app hother happ (by rw [hself]; rfl) hipc
  · have h0 : (k.processes i).appId = 0 := by
      by_contra hc
      exact happ (isApp_iff.mpr ⟨hlive, hc⟩)
    refine h.same_apps hother (Bool.not_eq_true _ ▸ happ) (by rw [hself]; rfl) ?_ ?_
    · intro hc
      rw [Kernel.Live, hself] at hc
      exact absurd rfl hc
    · rw [hipc, h.probe i hlive h0, releasedIpc, if_pos rfl]
      exact SameUse.refl _

theorem Wired.load {images : Images} {appId : UInt32} {l : Loading} {done : Bool}
    (hpre : LoadPre k.kernelPaging k.phys) (hidle : Idle (k.processes i))
    (hload : Loads images k i appId l done) (hsame : SameHold (k.store i l) k') : Wired k' := by
  have hother : ∀ j, j ≠ i → k'.processes j = k.processes j := by
    intro j hj
    rw [hsame.processes]
    exact store_of_ne k _ hj
  have hself : k'.processes i = l.process := by
    rw [hsame.processes]
    exact store_same k i l
  have hipc : k'.ipc = l.ipc := hsame.ipc
  have hbefore : (k.processes i).isApp = false := by
    unfold Process.isApp
    rw [hidle.state]
    rfl
  rcases hload.spec hpre hidle with ⟨-, x, map, entry, hdone⟩ | ⟨-, hfailed⟩
  · have hprocess := hdone.process
    by_cases h0 : appId = 0
    · obtain ⟨-, hend, htable, hsameIpc⟩ := hdone.outfit.probe h0
      refine h.same_apps hother hbefore ?_ ?_ ?_
      · rw [hself, hprocess]
        show (ProcessState.ready ≠ .unused && decide (appId ≠ 0)) = false
        rw [h0]
        rfl
      · intro _
        rw [hself, hprocess]
        refine ⟨⟨hdone.pid_ne, ?_, ?_, ?_, ?_⟩, hend⟩
        · show x.table.principal = k.nextPid
          rw [htable]
          rfl
        · show TypesFit x.table
          rw [htable]
          exact tableInit_fits _
        · show EntriesFrom x.table _
          rw [htable]
          intro slot ht
          exact absurd rfl ht
        · intro g hg
          change g ∈ (if appId = 0 then [] else _) at hg
          rw [if_pos h0] at hg
          cases hg
      · rw [hipc]
        have hkeep : l.ipc = k.ipc := hsameIpc
        rw [hkeep]
        exact SameUse.refl _
    · have hout := hdone.outfit.app h0
      refine h.add_app hother hbefore ?_ ?_ ?_ ?_
      · rw [hself, hprocess]
        show (ProcessState.ready ≠ .unused && decide (appId ≠ 0)) = true
        rw [decide_eq_true h0]
        rfl
      · rw [hself, hprocess]
        have hgrants : (if appId = 0 then [] else appGrants appId x.surface x.endpoint) =
          appGrants appId x.surface x.endpoint := if_neg h0
        refine ⟨hdone.pid_ne, hout.granted.principal, hout.granted.fits, ?_, ?_⟩
        · have hentries := hout.granted.from_list [] (tableInit_empty _)
          rw [List.nil_append, ← hgrants] at hentries
          exact hentries
        · have hheld := hout.granted.held
          rw [← hgrants] at hheld
          exact hheld
      · rw [hself, hprocess, hipc]
        exact hout.created
      · rw [hself, hprocess]
        exact hout.endpoint
  · have hun : (k'.processes i).state = .unused := by
      rw [hself]
      exact hfailed.idle.state
    refine h.same_apps hother hbefore ?_ (fun hc => absurd hun hc) ?_
    · unfold Process.isApp
      rw [hun]
      rfl
    · rw [hipc]
      exact hfailed.ipc

end Wired

/-! ## Reachable states -/

structure Sound (paging : PagingInfo) (mem₀ : Mem) (frames : List Nat) (total : Nat) (k : Kernel) :
    Prop where
  scheduled : Scheduled k
  placed : Placed k
  housed : Housed paging mem₀ frames total k
  wired : Wired k

section Sound

variable {images : Images} {paging : PagingInfo} {mem₀ : Mem} {frames : List Nat} {total : Nat}
  (hroot : KernelRoot mem₀ paging) (hin : frameOf paging.rootTable ∈ frames)

include hroot hin

theorem Sound.step {k k' : Kernel} (h : Sound paging mem₀ frames total k)
    (hs : Step images k k') : Sound paging mem₀ frames total k' := by
  have hsched := h.scheduled.step hs
  have hplaced := h.placed.change fun i => hs.change h.scheduled i
  cases hs.resources h.scheduled with
  | keep hk =>
    exact ⟨hsched, hplaced, h.housed.user hk fun i hi => h.wired.quiet hi, h.wired.keep hk⟩
  | load i appId l done _ hfree hload hsame =>
    exact ⟨hsched, hplaced, h.housed.load hroot hin hfree hload hsame,
      h.wired.load (h.housed.loadPre hroot hin) (h.housed.idle i hfree) hload hsame⟩
  | release i _ hlive hsame =>
    exact ⟨hsched, hplaced, h.housed.release hlive hsame, h.wired.release hlive hsame⟩

/-- A probe is loaded into a slot that has none. -/
theorem owned_probe (images : Images) {k k' : Kernel} {image : List UInt8} {done : Bool}
    (hhoused : Housed paging mem₀ frames total k) (hwired : Wired k)
    (hfree : (k.processes i).state = .unused) (hload : k.loadProbe i image = .ok (k', done))
    (k'' : Kernel) (hsame : SameHold k' k'') : Housed paging mem₀ frames total k'' ∧ Wired k'' := by
  obtain ⟨l, hl, rfl⟩ := loaded_eq hload
  have hloads : Loads images k i 0 l done := Or.inl ⟨rfl, image, hl⟩
  have hstore : SameHold (k.store i l) k'' :=
    ⟨hsame.phys, hsame.ipc, hsame.processes, hsame.paging, hsame.late⟩
  exact ⟨hhoused.load hroot hin hfree hloads hstore,
    hwired.load (hhoused.loadPre hroot hin) (hhoused.idle i hfree) hloads hstore⟩

end Sound

/-- The tables as `process_init` sets them up own nothing. -/
theorem reset_housed {paging : PagingInfo} {frames : List Nat} {k : Kernel}
    (h : KernelHeld k.phys paging frames) :
    Housed paging k.phys.mem frames k.phys.pmm.freeCount (k.reset paging) where
  kernelPaging := rfl
  ok := h.ok
  kernel := fun _ _ => rfl
  held := by
    show Held k.phys.pmm (frames ++ [])
    rw [List.append_nil]
    exact h.held
  free := rfl
  idle := fun _ _ => idle_zero
  live := fun _ hlive => absurd rfl hlive

theorem reset_wired (k : Kernel) (paging : PagingInfo) : Wired (k.reset paging) where
  authority := fun _ hlive => absurd rfl hlive
  probe := fun _ hlive => absurd rfl hlive
  linked := fun _ happ => Bool.noConfusion happ
  apart := fun _ _ happ => Bool.noConfusion happ
  count := by
    show slotCount (fun slot => (ipcSelfTest.1 slot).used) = _
    rw [ipcSelfTest_eq]
    rfl
  empty := by
    intro slot hused
    change (ipcSelfTest.1 slot).used = true at hused
    rw [ipcSelfTest_eq] at hused
    cases hused

section Reached

variable {images : Images} {paging : PagingInfo} {frames : List Nat} {k₀ k : Kernel}
  (hheld : KernelHeld k₀.phys paging frames)

include hheld

theorem processInit_sound (h : processInit images paging k₀ = .ok (k, true)) :
    Sound paging k₀.phys.mem frames k₀.phys.pmm.freeCount k := by
  have hin := (hheld.tables 0 _ .root).2
  have hplaced : Placed k := (Reachable.init h).placed
  have hsched := (processInit_initial h).scheduled
  obtain ⟨k₁, k₂, h₁, hfree, h₂, rfl⟩ := processInit_cases h
  obtain ⟨hhoused, hwired⟩ := owned_probe hheld.root hin images (reset_housed hheld)
    (reset_wired k₀ paging) rfl h₁ k₁.countProbe ⟨rfl, rfl, rfl, rfl, rfl⟩
  obtain ⟨hhoused', hwired'⟩ := owned_probe hheld.root hin images hhoused hwired hfree h₂
    { k₂.countProbe with addressSpacesIsolated := true, schedulerReady := true }
    ⟨rfl, rfl, rfl, rfl, rfl⟩
  exact ⟨hsched, hplaced, hhoused', hwired'⟩

/-- **Ownership and authority hold in every reachable state.** -/
theorem Reachable.sound (h : Reachable images paging k₀ k) :
    Sound paging k₀.phys.mem frames k₀.phys.pmm.freeCount k :=
  Reachable.invariant _ (fun _ hk => processInit_sound hheld hk)
    (fun _ _ hk hs => hk.step hheld.root (hheld.tables 0 _ .root).2 hs) h

end Reached

/-- The sample machine has one table, the kernel's root. -/
theorem sampleMachine_kernelHeld : KernelHeld sampleMachine sampleKernel [256] where
  ok := sampleMachine_pmmOk
  held := sampleMachine_held
  tables := by
    intro depth table ht
    cases ht with
    | root => exact ⟨sampleMachine_kernelRoot.page, List.mem_singleton.mpr (by decide)⟩
    | @child depth index table _ _ _ hpresent _ =>
      rw [show entryAt sampleMachine.mem table index = 0 from
        load64_zero fun _ _ _ => rfl] at hpresent
      exact absurd UInt64.zero_and hpresent
  root := sampleMachine_kernelRoot

end ArgusOs.Runtime
