/-
  The capabilities a process is born with.

  `grant_process_capability` applied to a list of grants, from a freshly initialised table:
  every entry of the result comes from the list, every grant of the list has its entry, and
  none can fail while the table has room.
-/
import ArgusOs.Runtime.Load

namespace ArgusOs.Runtime

open Lib Memory Capability Ipc Elf

/-- Type, rights and object. -/
abbrev GrantSpec := UInt32 × UInt16 × UInt64

/-- The entry holds this grant. -/
def Holds (entry : CapabilityEntry) (g : GrantSpec) : Prop :=
  entry.type.toUInt32 = g.1 ∧ entry.rights = g.2.1 ∧ entry.object = g.2.2

/-- Everything in the table comes from the grants. -/
def EntriesFrom (table : CapabilityTable) (grants : List GrantSpec) : Prop :=
  ∀ slot, (table.entries slot).type ≠ 0 → ∃ g ∈ grants, Holds (table.entries slot) g

def usedEntries (table : CapabilityTable) : Nat :=
  slotCount fun slot => (table.entries slot).type ≠ 0

/-- A grant outside the network types, with rights its type allows. -/
def LocalGrant (g : GrantSpec) : Prop :=
  (g.1 ≠ capabilityAnonymousStream ∧ g.1 ≠ capabilityRawNetwork) ∧ GrantOk g.1 g.2.1

/-- What one accepted grant does to a table. -/
structure Granted (table table' : CapabilityTable) (g : GrantSpec) : Prop where
  principal : table'.principal = table.principal
  fits : TypesFit table → TypesFit table'
  entry : ∃ slot, (table.entries slot).type = 0 ∧ (table'.entries slot).type ≠ 0 ∧
    Holds (table'.entries slot) g ∧ ∀ other, other ≠ slot → table'.entries other =
      table.entries other

variable {g : GrantSpec}

theorem granted_of_cases {table : CapabilityTable} {slot : Fin 16} (hok : GrantOk g.1 g.2.1)
    (hfree : (table.entries slot).type = 0) :
    Granted table (table.setEntry slot (grantedEntry table slot g.1 g.2.1 g.2.2)) g := by
  obtain ⟨hpos, hle⟩ := allowedRights_ne_zero hok.1
  have h16 := toUInt16_toNat_of_le hle
  have htype : (grantedEntry table slot g.1 g.2.1 g.2.2).type = g.1.toUInt16 := rfl
  refine ⟨rfl, ?_, slot, hfree, ?_, ?_, ?_⟩
  · intro hfit other
    by_cases ho : other = slot
    · rw [ho, CapabilityTable.setEntry_same, htype, h16]
      omega
    · rw [CapabilityTable.setEntry_of_ne _ _ ho]
      exact hfit other
  · rw [CapabilityTable.setEntry_same, htype, Ne, ← UInt16.toNat_inj, h16]
    show ¬ g.1.toNat = 0
    omega
  · rw [CapabilityTable.setEntry_same]
    refine ⟨?_, rfl, rfl⟩
    rw [htype, ← UInt32.toNat_inj, UInt16.toNat_toUInt32, h16]
  · intro other ho
    exact CapabilityTable.setEntry_of_ne _ _ ho

/-- A local grant is refused for want of a principal or of room only. -/
theorem grantProcessCapability_spec (p : Process) (hg : LocalGrant g) :
    (grantProcessCapability p g.1 g.2.1 g.2.2 = (p, 0) ∧
      ¬ (p.capabilities.principal ≠ 0 ∧ usedEntries p.capabilities < 16)) ∨
    ∃ table handle, grantProcessCapability p g.1 g.2.1 g.2.2 =
        ({ p with capabilities := table }, handle) ∧ Granted p.capabilities table g ∧
      (TypesFit p.capabilities → handle ≠ 0) := by
  unfold grantProcessCapability
  rw [if_neg (by
    intro hc
    rcases hc.1 with h | h
    · exact hg.1.1 h
    · exact hg.1.2 h)]
  rcases capabilityGrant_cases p.capabilities g.1 g.2.1 g.2.2 with
    ⟨heq, hbad⟩ | ⟨-, hok, slot, -, hfree, heq⟩
  · left
    rw [heq]
    refine ⟨rfl, ?_⟩
    intro hc
    obtain ⟨slot, hslot⟩ := exists_false_of_slotCount_lt hc.2
    exact hbad ⟨hc.1, hg.2, slot, by simpa using hslot⟩
  · right
    rw [heq]
    have hgr := granted_of_cases hok hfree
    refine ⟨_, _, rfl, hgr, ?_⟩
    intro hfit
    have := hgr.fits hfit slot
    rw [CapabilityTable.setEntry_same] at this
    exact makeHandle_ne_zero slot _ this

theorem Granted.used {table table' : CapabilityTable} (h : Granted table table' g) :
    usedEntries table' = usedEntries table + 1 := by
  obtain ⟨slot, hfree, hset, -, hother⟩ := h.entry
  exact slotCount_of_update (i := slot) (by simpa using hfree) (by simpa using hset)
    fun j hj => by rw [hother j hj]

theorem Granted.entriesFrom {table table' : CapabilityTable} (h : Granted table table' g)
    {grants : List GrantSpec} (hfrom : EntriesFrom table grants) :
    EntriesFrom table' (grants ++ [g]) := by
  obtain ⟨slot, -, -, hholds, hother⟩ := h.entry
  intro other ht
  by_cases ho : other = slot
  · rw [ho]
    exact ⟨g, List.mem_append_right _ (List.mem_singleton.mpr rfl), hholds⟩
  · rw [hother other ho] at ht ⊢
    obtain ⟨g', hg', hh⟩ := hfrom other ht
    exact ⟨g', List.mem_append_left _ hg', hh⟩

/-- Entries stay where they are while more is granted. -/
theorem Granted.kept {table table' : CapabilityTable} (h : Granted table table' g) {slot : Fin 16}
    (ht : (table.entries slot).type ≠ 0) : table'.entries slot = table.entries slot := by
  obtain ⟨slot', hfree, -, -, hother⟩ := h.entry
  apply hother
  intro hc
  rw [hc] at ht
  exact ht hfree

/-- What a list of grants leaves in the table. -/
structure GrantedAll (table table' : CapabilityTable) (grants : List GrantSpec) : Prop where
  principal : table'.principal = table.principal
  fits : TypesFit table'
  from_list : ∀ before, EntriesFrom table before → EntriesFrom table' (before ++ grants)
  kept : ∀ slot, (table.entries slot).type ≠ 0 → table'.entries slot = table.entries slot
  held : ∀ g ∈ grants, ∃ slot, (table'.entries slot).type ≠ 0 ∧ Holds (table'.entries slot) g

theorem grantAll_spec (grants : List GrantSpec) (hg : ∀ g ∈ grants, LocalGrant g) (p : Process)
    (hfit : TypesFit p.capabilities) :
    ∃ table done, grantAll p grants = ({ p with capabilities := table }, done) ∧
      (done = true → GrantedAll p.capabilities table grants) ∧
      (done = false → ¬ (p.capabilities.principal ≠ 0 ∧
        usedEntries p.capabilities + grants.length ≤ 16)) := by
  induction grants generalizing p with
  | nil =>
    refine ⟨p.capabilities, true, rfl, fun _ => ⟨rfl, hfit, ?_, fun _ _ => rfl, ?_⟩, ?_⟩
    · intro before h
      rwa [List.append_nil]
    · intro g h
      cases h
    · intro h
      cases h
  | cons g grants ih =>
    obtain ⟨type, rights, object⟩ := g
    unfold grantAll
    rcases grantProcessCapability_spec p (hg _ List.mem_cons_self) with
      ⟨heq, hbad⟩ | ⟨table, handle, heq, hgr, hne⟩
    · rw [heq]
      refine ⟨p.capabilities, false, rfl, ?_, ?_⟩
      · intro h
        cases h
      intro _ hc
      refine hbad ⟨hc.1, ?_⟩
      have := hc.2
      rw [List.length_cons] at this
      omega
    · rw [heq]
      dsimp only
      rw [if_neg (hne hfit)]
      obtain ⟨table', done, heq', hdone, hfail⟩ :=
        ih (fun g' hg' => hg g' (List.mem_cons_of_mem _ hg'))
        { p with capabilities := table } (hgr.fits hfit)
      refine ⟨table', done, heq', ?_, ?_⟩
      · intro hd
        have hall := hdone hd
        refine ⟨hall.principal.trans hgr.principal, hall.fits, ?_, ?_, ?_⟩
        · intro before hfrom
          have := hall.from_list _ (hgr.entriesFrom hfrom)
          rwa [List.append_assoc, List.singleton_append] at this
        · intro slot ht
          rw [hall.kept slot (by rw [hgr.kept ht]; exact ht), hgr.kept ht]
        · intro g' hg'
          rw [List.mem_cons] at hg'
          rcases hg' with rfl | hg'
          · obtain ⟨slot, -, hset, hholds, -⟩ := hgr.entry
            refine ⟨slot, ?_, ?_⟩
            · rw [hall.kept slot hset]
              exact hset
            · rw [hall.kept slot hset]
              exact hholds
          · exact hall.held g' hg'
      · intro hd hc
        refine hfail hd ⟨?_, ?_⟩
        · rw [hgr.principal]
          exact hc.1
        · have := hc.2
          rw [hgr.used]
          rw [List.length_cons] at this
          omega

/-- Which object is granted plays no part. -/
theorem localGrant_object {type : UInt32} {rights : UInt16} (h : LocalGrant (type, rights, 0))
    (object : UInt64) : LocalGrant (type, rights, object) :=
  h

theorem appGrants_local (appId : UInt32) (surface endpoint : UInt64) :
    ∀ g ∈ appGrants appId surface endpoint, LocalGrant g := by
  intro g hg
  simp only [appGrants, List.mem_cons, List.not_mem_nil, or_false] at hg
  rcases hg with rfl | rfl | rfl | rfl
  · exact localGrant_object ⟨by decide, by decide, by decide, by decide⟩ _
  · exact localGrant_object ⟨by decide, by decide, by decide, by decide⟩ _
  · exact localGrant_object ⟨by decide, by decide, by decide, by decide⟩ _
  · exact localGrant_object ⟨by decide, by decide, by decide, by decide⟩ _

theorem tableInit_fits (principal : UInt64) : TypesFit (capabilityTableInit principal) :=
  fun _ => by
    show (0 : UInt16).toNat < 256
    decide

theorem tableInit_empty (principal : UInt64) : EntriesFrom (capabilityTableInit principal) [] :=
  fun _ h => absurd rfl h

theorem tableInit_used (principal : UInt64) : usedEntries (capabilityTableInit principal) = 0 := by
  simp [usedEntries, slotCount, capabilityTableInit, CapabilityEntry.zero]

end ArgusOs.Runtime
