/-
  What a capability table is for: an authority map.

  `Authority` says which grant every slot holds and how often the slot has been
  revoked. It is driven by the calls and by what they return (`authorityStep`): a
  grant that returns a nonzero handle puts that handle, with the type, rights and
  object it was asked for, into the first slot nothing is held in; a revocation that
  returns 1 drops the grant with that handle. Nothing of the packing of handles or of
  the generations enters it.

  `Refines` ties a table to its authority map, and every call keeps it
  (`authorityStep_refines`, `authorityRun_refines`). From it:

  * `capability_refines_authority`: over every run of grants and revocations from a
    nonzero principal, resolution succeeds on exactly the held handles, find agrees
    with what is held, the stored rights are allowed ones, and a revoked handle is dead
    until its slot has been revoked `2 ^ 32 - 1` times.
  * `cross_principal_rejected_iff`: a handle granted under one principal is refused by
    the table of another unless the two generation sequences meet in that slot and the
    slot holds the same type there. The principals do not keep them apart:
    `cross_principal_handle_resolves`.
-/
import ArgusOs.Capability.Table

namespace ArgusOs.Capability

open Lib Function

variable {type : UInt32} {principal : UInt64} {table : CapabilityTable} {slot : Fin 16}

/-! ## Runs -/

inductive CapabilityOp where
  | grant (type : UInt32) (rights : UInt16) (object : UInt64)
  | revoke (handle : UInt64)

def capabilityStep (table : CapabilityTable) : CapabilityOp → CapabilityTable
  | .grant type rights object => (capabilityGrant table type rights object).1
  | .revoke handle => (capabilityRevoke table handle).1

def capabilityRun (table : CapabilityTable) (ops : List CapabilityOp) : CapabilityTable :=
  ops.foldl capabilityStep table

/-! ## The authority map -/

/-- One grant, with the handle it returned. -/
structure Grant where
  handle : UInt64
  type : UInt32
  rights : UInt16
  object : UInt64

structure Authority where
  held : Fin 16 → Option Grant
  revoked : Fin 16 → Nat

variable {g : Grant} {a : Authority}

def Authority.empty : Authority := ⟨fun _ => none, fun _ => 0⟩

/-- The first slot nothing is held in takes the grant. -/
def Authority.grant (a : Authority) (g : Grant) : Authority :=
  match firstSlot fun slot => (a.held slot).isNone with
  | none => a
  | some slot => { a with held := update a.held slot (some g) }

/-- Drop the grant with this handle and count the revocation. -/
def Authority.revoke (a : Authority) (handle : UInt64) : Authority where
  held := fun slot => if (a.held slot).map Grant.handle = some handle then none else a.held slot
  revoked := fun slot =>
    if (a.held slot).map Grant.handle = some handle then a.revoked slot + 1 else a.revoked slot

variable (s : CapabilityTable × Authority)

/-- One call on the table, and what its answer does to the authority map. -/
def authorityStep : CapabilityOp → CapabilityTable × Authority
  | .grant type rights object =>
    let (table, handle) := capabilityGrant s.1 type rights object
    (table, if handle = 0 then s.2 else s.2.grant ⟨handle, type, rights, object⟩)
  | .revoke handle =>
    let (table, done) := capabilityRevoke s.1 handle
    (table, if done then s.2.revoke handle else s.2)

def authorityRun (principal : UInt64) (ops : List CapabilityOp) : CapabilityTable × Authority :=
  ops.foldl authorityStep (capabilityTableInit principal, Authority.empty)

theorem authorityStep_fst (op : CapabilityOp) : (authorityStep s op).1 = capabilityStep s.1 op := by
  cases op <;> rfl

theorem foldl_authorityStep_fst (ops : List CapabilityOp) :
    (ops.foldl authorityStep s).1 = capabilityRun s.1 ops := by
  induction ops generalizing s with
  | nil => rfl
  | cons op ops ih =>
    rw [List.foldl_cons, ih, authorityStep_fst]
    rfl

/-- The authority map rides along: the table component is the plain run. -/
theorem authorityRun_fst (principal : UInt64) (ops : List CapabilityOp) :
    (authorityRun principal ops).1 = capabilityRun (capabilityTableInit principal) ops :=
  foldl_authorityStep_fst _ ops

/-! ## Refinement -/

/-- The generation slot `slot` starts from. -/
def startGeneration (principal : UInt64) (slot : Fin 16) : UInt32 :=
  initialGeneration principal (UInt32.ofNat slot.val)

theorem startGeneration_ne_zero (principal : UInt64) (slot : Fin 16) :
    startGeneration principal slot ≠ 0 := by
  have hs : ∀ slot : Fin 16, UInt32.ofNat slot.val + 1 ≠ 0 := by decide
  unfold startGeneration initialGeneration
  dsimp only
  split
  · assumption
  · exact hs slot

structure Refines (principal : UInt64) (table : CapabilityTable) (a : Authority) : Prop where
  principal_eq : table.principal = principal
  generation : ∀ slot, (table.entries slot).generation =
    genAfter (startGeneration principal slot) (a.revoked slot)
  free : ∀ slot, a.held slot = none → (table.entries slot).type = 0
  held : ∀ slot g, a.held slot = some g →
    g.handle = makeHandle slot (table.entries slot) ∧
      (table.entries slot).type = g.type.toUInt16 ∧
      (table.entries slot).rights = g.rights ∧
      (table.entries slot).object = g.object ∧ GrantOk g.type g.rights

section

variable (h : Refines principal table a)

include h

theorem Refines.type_ne_zero (hg : a.held slot = some g) : (table.entries slot).type ≠ 0 := by
  obtain ⟨-, ht, -, -, hok⟩ := h.held slot g hg
  have hb := allowedRights_ne_zero hok.1
  intro h0
  have := toUInt16_toNat_of_le hb.2
  rw [← ht, h0] at this
  have h0' : (0 : UInt16).toNat = 0 := rfl
  omega

theorem Refines.held_isNone (slot : Fin 16) :
    (a.held slot).isNone = decide ((table.entries slot).type = 0) := by
  cases hg : a.held slot with
  | none => simp [h.free slot hg]
  | some g => simp [h.type_ne_zero hg]

/-- Types are stored from `capability_grant` only, so they fit the handle. -/
theorem Refines.typesFit : TypesFit table := by
  intro slot
  cases hg : a.held slot with
  | none =>
    rw [h.free slot hg]
    decide
  | some g =>
    obtain ⟨-, ht, -, -, hok⟩ := h.held slot g hg
    have hb := allowedRights_ne_zero hok.1
    rw [ht, toUInt16_toNat_of_le hb.2]
    omega

theorem Refines.type_toUInt32 (hg : a.held slot = some g) :
    (table.entries slot).type.toUInt32 = g.type := by
  obtain ⟨-, ht, -, -, hok⟩ := h.held slot g hg
  have hb := allowedRights_ne_zero hok.1
  rw [← UInt32.toNat_inj, UInt16.toNat_toUInt32, ht, toUInt16_toNat_of_le hb.2]

/-- An occupied slot is one that something is held in. -/
theorem Refines.held_of_type (ht : (table.entries slot).type ≠ 0) : ∃ g, a.held slot = some g := by
  cases hg : a.held slot with
  | none => exact absurd (h.free slot hg) ht
  | some g => exact ⟨g, rfl⟩

theorem Refines.generation_ne_zero (slot : Fin 16) : (table.entries slot).generation ≠ 0 := by
  rw [h.generation]
  exact genAfter_ne_zero (startGeneration_ne_zero principal slot) _

end

theorem capabilityTableInit_refines (principal : UInt64) :
    Refines principal (capabilityTableInit principal) Authority.empty where
  principal_eq := rfl
  generation := fun _ => rfl
  free := fun _ _ => rfl
  held := fun _ _ h => by cases h

theorem grant_refines (h : Refines principal table a) (type : UInt32) (rights : UInt16)
    (object : UInt64) :
    Refines principal (authorityStep (table, a) (.grant type rights object)).1
      (authorityStep (table, a) (.grant type rights object)).2 := by
  rcases capabilityGrant_cases table type rights object with
    ⟨heq, -⟩ | ⟨-, hok, slot, hfirst, htype, heq⟩
  · simp only [authorityStep, heq]
    exact h
  · have hb := allowedRights_ne_zero hok.1
    have hfit : (grantedEntry table slot type rights object).type.toNat < 256 := by
      show type.toUInt16.toNat < 256
      rw [toUInt16_toNat_of_le hb.2]
      omega
    have hfirst' : firstSlot (fun slot => (a.held slot).isNone) = some slot := by
      rw [← hfirst]
      exact firstSlot_congr fun i => h.held_isNone i
    simp only [authorityStep, heq, if_neg (makeHandle_ne_zero slot _ hfit), Authority.grant,
      hfirst']
    refine ⟨h.principal_eq, ?_, ?_, ?_⟩
    · intro i
      by_cases hi : i = slot
      · subst hi
        rw [CapabilityTable.setEntry_same]
        exact h.generation i
      · rw [CapabilityTable.setEntry_of_ne _ _ hi]
        exact h.generation i
    · intro i hn
      dsimp only at hn
      by_cases hi : i = slot
      · subst hi
        simp at hn
      · rw [CapabilityTable.setEntry_of_ne _ _ hi]
        rw [update_of_ne hi] at hn
        exact h.free i hn
    · intro i g hg
      dsimp only at hg
      by_cases hi : i = slot
      · subst hi
        rw [update_self, Option.some.injEq] at hg
        subst hg
        rw [CapabilityTable.setEntry_same]
        exact ⟨rfl, rfl, rfl, rfl, hok⟩
      · rw [CapabilityTable.setEntry_of_ne _ _ hi]
        rw [update_of_ne hi] at hg
        exact h.held i g hg

theorem revoke_refines (h : Refines principal table a) (handle : UInt64) :
    Refines principal (authorityStep (table, a) (.revoke handle)).1
      (authorityStep (table, a) (.revoke handle)).2 := by
  rcases capabilityRevoke_cases h.typesFit handle with ⟨heq, -⟩ | ⟨slot, hmk, htype, heq⟩
  · simp only [authorityStep, heq]
    exact h
  · obtain ⟨g, hg⟩ := h.held_of_type htype
    have hgh : g.handle = handle := (h.held slot g hg).1.trans hmk
    -- the handle names its slot, so the map drops this slot and no other
    have hother : ∀ i, i ≠ slot → (a.held i).map Grant.handle ≠ some handle := by
      intro i hi hc
      obtain ⟨g', hg', he⟩ := Option.map_eq_some_iff.mp hc
      have hmk' := (h.held i g' hg').1
      rw [he, ← hmk, makeHandle_inj (h.typesFit slot) (h.typesFit i)] at hmk'
      exact hi hmk'.1.symm
    have hthis : (a.held slot).map Grant.handle = some handle := by
      rw [hg, Option.map_some, hgh]
    simp only [authorityStep, heq, if_true, Authority.revoke]
    refine ⟨h.principal_eq, ?_, ?_, ?_⟩
    · intro i
      dsimp only
      by_cases hi : i = slot
      · subst hi
        rw [CapabilityTable.setEntry_same, if_pos hthis]
        show nextGen (table.entries i).generation = _
        rw [h.generation]
        rfl
      · rw [CapabilityTable.setEntry_of_ne _ _ hi, if_neg (hother i hi)]
        exact h.generation i
    · intro i hn
      dsimp only at hn
      by_cases hi : i = slot
      · subst hi
        rw [CapabilityTable.setEntry_same]
        rfl
      · rw [CapabilityTable.setEntry_of_ne _ _ hi]
        rw [if_neg (hother i hi)] at hn
        exact h.free i hn
    · intro i g' hg'
      dsimp only at hg'
      by_cases hi : i = slot
      · subst hi
        rw [if_pos hthis] at hg'
        cases hg'
      · rw [if_neg (hother i hi)] at hg'
        rw [CapabilityTable.setEntry_of_ne _ _ hi]
        exact h.held i g' hg'

theorem authorityStep_refines {s : CapabilityTable × Authority} (h : Refines principal s.1 s.2)
    (op : CapabilityOp) : Refines principal (authorityStep s op).1 (authorityStep s op).2 := by
  cases op with
  | grant type rights object => exact grant_refines h type rights object
  | revoke handle => exact revoke_refines h handle

theorem foldl_authorityStep_refines {s : CapabilityTable × Authority}
    (h : Refines principal s.1 s.2) (ops : List CapabilityOp) :
    Refines principal (ops.foldl authorityStep s).1 (ops.foldl authorityStep s).2 := by
  induction ops generalizing s with
  | nil => exact h
  | cons op ops ih => exact ih (authorityStep_refines h op)

theorem authorityRun_refines (principal : UInt64) (ops : List CapabilityOp) :
    Refines principal (capabilityRun (capabilityTableInit principal) ops)
      (authorityRun principal ops).2 := by
  rw [← authorityRun_fst]
  exact foldl_authorityStep_refines (capabilityTableInit_refines principal) ops

/-! ## What a refined table answers -/

/-- Resolution succeeds on the held handles, with the held type and rights, and only there. -/
theorem resolve_iff_held (hp : principal ≠ 0) (h : Refines principal table a) (handle : UInt64)
    (ht : type ≠ capabilityNone) (required : UInt16) (object : UInt64) :
    capabilityResolve table handle type required = some object ↔
      ∃ slot g, a.held slot = some g ∧ g.handle = handle ∧ g.type = type ∧
        g.rights &&& required = required ∧ g.object = object := by
  have hp' : table.principal ≠ 0 := by rw [h.principal_eq]; exact hp
  rw [capabilityResolve_eq_some hp' h.typesFit]
  constructor
  · rintro ⟨slot, hh, hty, hr, ho⟩
    have hne : (table.entries slot).type ≠ 0 := by
      intro h0
      rw [h0] at hty
      exact ht hty.symm
    obtain ⟨g, hg⟩ := h.held_of_type hne
    obtain ⟨e1, -, e3, e4, -⟩ := h.held slot g hg
    refine ⟨slot, g, hg, e1.trans hh.symm, ?_, ?_, e4.symm.trans ho⟩
    · rw [← h.type_toUInt32 hg, hty]
    · rw [← e3, hr]
  · rintro ⟨slot, g, hg, hh, hty, hr, ho⟩
    obtain ⟨e1, -, e3, e4, -⟩ := h.held slot g hg
    exact ⟨slot, hh.symm.trans e1, (h.type_toUInt32 hg).trans hty, by rw [e3, hr], e4.trans ho⟩

/-- What is stored as rights is a nonempty subset of the rights of the type. -/
theorem stored_rights_allowed (h : Refines principal table a) (slot : Fin 16)
    (ht : (table.entries slot).type ≠ 0) :
    (table.entries slot).rights ≠ 0 ∧
      (table.entries slot).rights &&& ~~~(allowedRights (table.entries slot).type.toUInt32) =
        0 := by
  obtain ⟨g, hg⟩ := h.held_of_type ht
  obtain ⟨-, -, e3, -, hok⟩ := h.held slot g hg
  rw [e3, h.type_toUInt32 hg]
  exact ⟨hok.2.1, hok.2.2⟩

theorem find_iff_held (hp : principal ≠ 0) (h : Refines principal table a)
    (ht : type ≠ capabilityNone) (required : UInt16) :
    capabilityFind table type required ≠ 0 ↔
      ∃ slot g, a.held slot = some g ∧ g.type = type ∧ g.rights &&& required = required := by
  have hp' : table.principal ≠ 0 := by rw [h.principal_eq]; exact hp
  rcases capabilityFind_cases table type required hp' with ⟨h0, hnone⟩ | ⟨slot, ⟨hty, hr⟩, hf⟩
  · constructor
    · intro hc
      exact absurd h0 hc
    · rintro ⟨slot, g, hg, hgt, hgr⟩
      obtain ⟨-, -, e3, -, -⟩ := h.held slot g hg
      exact absurd ⟨(h.type_toUInt32 hg).trans hgt, by rw [e3, hgr]⟩ (hnone slot)
  · constructor
    · intro _
      have hne : (table.entries slot).type ≠ 0 := by
        intro h0
        rw [h0] at hty
        exact ht hty.symm
      obtain ⟨g, hg⟩ := h.held_of_type hne
      obtain ⟨-, -, e3, -, -⟩ := h.held slot g hg
      exact ⟨slot, g, hg, (h.type_toUInt32 hg).symm.trans hty, by rw [← e3, hr]⟩
    · intro _
      rw [hf]
      exact makeHandle_ne_zero slot _ (h.typesFit slot)

theorem find_resolves (hp : principal ≠ 0) (h : Refines principal table a) {required : UInt16}
    (hf : capabilityFind table type required ≠ 0) :
    ∃ object, capabilityResolve table (capabilityFind table type required) type required =
      some object := by
  have hp' : table.principal ≠ 0 := by rw [h.principal_eq]; exact hp
  rcases capabilityFind_cases table type required hp' with ⟨h0, -⟩ | ⟨slot, ⟨hty, hr⟩, hf'⟩
  · exact absurd h0 hf
  · refine ⟨(table.entries slot).object, ?_⟩
    rw [capabilityResolve_eq_some hp' h.typesFit]
    exact ⟨slot, hf', hty, hr, rfl⟩

/-- A handle whose slot has moved on by less than a full cycle of generations is dead. -/
theorem resolve_stale (hp : principal ≠ 0) {table' : CapabilityTable} {a' : Authority}
    (h : Refines principal table a) (h' : Refines principal table' a') (hg : a.held slot = some g)
    (hlt : a.revoked slot < a'.revoked slot) (hper : a'.revoked slot - a.revoked slot < genPeriod)
    (type : UInt32) (required : UInt16) :
    capabilityResolve table' g.handle type required = none := by
  have hp' : table'.principal ≠ 0 := by rw [h'.principal_eq]; exact hp
  cases hres : capabilityResolve table' g.handle type required with
  | none => rfl
  | some object =>
    obtain ⟨slot', hh, -⟩ :=
      (capabilityResolve_eq_some hp' h'.typesFit g.handle type required object).mp hres
    rw [(h.held slot g hg).1, makeHandle_inj (h.typesFit slot) (h'.typesFit slot')] at hh
    obtain ⟨rfl, hgen, -⟩ := hh
    have hstep : a'.revoked slot = a.revoked slot + (a'.revoked slot - a.revoked slot) := by omega
    rw [h'.generation, hstep, genAfter_add, ← h.generation] at hgen
    exact absurd hgen.symm
      (genAfter_ne_self (h.generation_ne_zero slot) (by omega) hper)

/-- **Capability tables refine an authority map.** For every run of grants and revocations
    from `capability_table_init` with a nonzero principal: `capability_resolve` accepts exactly
    the handles in force, with their type and a subset of their rights, and yields their
    object; every stored rights mask is a nonempty subset of the allowed ones;
    `capability_find` is nonzero exactly when something in force covers the request, and its
    handle resolves; and a handle that was in force stays dead after its slot is revoked, for
    `2 ^ 32 - 2` further revocations of the slot. -/
theorem capability_refines_authority (principal : UInt64) (hp : principal ≠ 0)
    (ops : List CapabilityOp) :
    (∀ handle type required object, type ≠ capabilityNone →
      (capabilityResolve (capabilityRun (capabilityTableInit principal) ops) handle type required =
          some object ↔
        ∃ slot g, (authorityRun principal ops).2.held slot = some g ∧ g.handle = handle ∧
          g.type = type ∧ g.rights &&& required = required ∧ g.object = object)) ∧
    (∀ slot, ((capabilityRun (capabilityTableInit principal) ops).entries slot).type ≠ 0 →
      ((capabilityRun (capabilityTableInit principal) ops).entries slot).rights ≠ 0 ∧
      ((capabilityRun (capabilityTableInit principal) ops).entries slot).rights &&&
        ~~~(allowedRights
          ((capabilityRun (capabilityTableInit principal) ops).entries slot).type.toUInt32) = 0) ∧
    (∀ type required, type ≠ capabilityNone →
      (capabilityFind (capabilityRun (capabilityTableInit principal) ops) type required ≠ 0 ↔
        ∃ slot g, (authorityRun principal ops).2.held slot = some g ∧ g.type = type ∧
          g.rights &&& required = required) ∧
      (capabilityFind (capabilityRun (capabilityTableInit principal) ops) type required ≠ 0 →
        ∃ object, capabilityResolve (capabilityRun (capabilityTableInit principal) ops)
          (capabilityFind (capabilityRun (capabilityTableInit principal) ops) type required)
          type required = some object)) ∧
    (∀ slot g later, (authorityRun principal ops).2.held slot = some g →
      (authorityRun principal ops).2.revoked slot <
        (authorityRun principal (ops ++ later)).2.revoked slot →
      (authorityRun principal (ops ++ later)).2.revoked slot -
        (authorityRun principal ops).2.revoked slot < 2 ^ 32 - 1 →
      ∀ type required,
        capabilityResolve (capabilityRun (capabilityTableInit principal) (ops ++ later))
          g.handle type required = none) := by
  have h := authorityRun_refines principal ops
  refine ⟨?_, ?_, ?_, ?_⟩
  · intro handle type required object ht
    exact resolve_iff_held hp h handle ht required object
  · intro slot ht
    exact stored_rights_allowed h slot ht
  · intro type required ht
    exact ⟨find_iff_held hp h ht required, find_resolves hp h⟩
  · intro slot g later hg hlt hper type required
    exact resolve_stale hp h (authorityRun_refines principal (ops ++ later)) hg hlt hper
      type required

/-- Principal 11, one clock grant revoked and granted again: the second handle resolves and the
    first one does not. -/
theorem capability_refines_authority_regrant :
    ∃ g, (authorityRun 11 [.grant capabilityClock capRightRead 5]).2.held 0 = some g ∧
      ∀ type required,
        capabilityResolve (capabilityRun (capabilityTableInit 11)
          ([.grant capabilityClock capRightRead 5] ++
            [.revoke 0xA6C538F279B30101, .grant capabilityClock capRightRead 7]))
          g.handle type required = none := by
  refine ⟨_, rfl, ?_⟩
  exact (capability_refines_authority 11 (by decide)
    [.grant capabilityClock capRightRead 5]).2.2.2 0 _
    [.revoke 0xA6C538F279B30101, .grant capabilityClock capRightRead 7] rfl
    (by decide +kernel) (by decide +kernel)

/-! ## Two principals -/

/-- A grant that returned a handle put the handle's own slot and generation into it. -/
theorem grant_handle_fields (h : Refines principal table a) {rights : UInt16} {object : UInt64}
    (hne : (capabilityGrant table type rights object).2 ≠ 0)
    (hslot : handleSlot (capabilityGrant table type rights object).2 = some slot) :
    (capabilityGrant table type rights object).2 =
        makeHandle slot (grantedEntry table slot type rights object) ∧
      (grantedEntry table slot type rights object).type.toNat < 256 ∧
      type.toUInt16.toUInt32 = type ∧ type ≠ capabilityNone ∧
      (grantedEntry table slot type rights object).generation =
        genAfter (startGeneration principal slot) (a.revoked slot) := by
  rcases capabilityGrant_cases table type rights object with
    ⟨heq, -⟩ | ⟨-, hok, slot', -, -, heq⟩
  · rw [heq] at hne
    exact absurd rfl hne
  · have hb := allowedRights_ne_zero hok.1
    have h16 := toUInt16_toNat_of_le hb.2
    have hfit : (grantedEntry table slot' type rights object).type.toNat < 256 := by
      show type.toUInt16.toNat < 256
      omega
    rw [heq] at hslot ⊢
    dsimp only at hslot ⊢
    rw [handleSlot_makeHandle slot' _ hfit, Option.some.injEq] at hslot
    subst hslot
    refine ⟨rfl, hfit, ?_, ?_, h.generation slot'⟩
    · rw [← UInt32.toNat_inj, UInt16.toNat_toUInt32, h16]
    · intro h0
      rw [h0] at hb
      exact absurd hb.1 (by decide)

/-- **When a handle crosses principals.** Take a handle that `capability_grant` returned on a
    table of principal `p₁` after the calls `ops₁`, naming `slot`. The table of `p₂` after
    `ops₂` refuses it for every type and rights mask exactly when that slot does not hold a
    grant of the handle's type there, or the two generation sequences, each advanced by the
    revocations of the slot so far, are apart modulo `2 ^ 32 - 1`. -/
theorem cross_principal_rejected_iff (p₁ p₂ : UInt64) (hp₂ : p₂ ≠ 0)
    (ops₁ ops₂ : List CapabilityOp) (type : UInt32) (rights : UInt16) (object : UInt64)
    (hne : (capabilityGrant (capabilityRun (capabilityTableInit p₁) ops₁) type rights
      object).2 ≠ 0) (slot : Fin 16)
    (hslot : handleSlot (capabilityGrant (capabilityRun (capabilityTableInit p₁) ops₁) type
      rights object).2 = some slot) :
    (∀ type' required,
      capabilityResolve (capabilityRun (capabilityTableInit p₂) ops₂)
        (capabilityGrant (capabilityRun (capabilityTableInit p₁) ops₁) type rights object).2
        type' required = none) ↔
    ((∀ g, (authorityRun p₂ ops₂).2.held slot = some g → g.type ≠ type) ∨
      ¬ (startGeneration p₁ slot).toNat + (authorityRun p₁ ops₁).2.revoked slot ≡
          (startGeneration p₂ slot).toNat + (authorityRun p₂ ops₂).2.revoked slot
          [MOD 2 ^ 32 - 1]) := by
  have h₁ := authorityRun_refines p₁ ops₁
  have h₂ := authorityRun_refines p₂ ops₂
  obtain ⟨hmk, hfit, h16, hnn, hgen⟩ := grant_handle_fields h₁ hne hslot
  have hmeet := genAfter_eq_iff (startGeneration_ne_zero p₁ slot)
    (startGeneration_ne_zero p₂ slot) ((authorityRun p₁ ops₁).2.revoked slot)
    ((authorityRun p₂ ops₂).2.revoked slot)
  unfold genPeriod at hmeet
  rw [hmk]
  constructor
  · intro hall
    by_contra hc
    rw [not_or, not_not] at hc
    obtain ⟨hg, hmod⟩ := hc
    push Not at hg
    obtain ⟨g, hg, hty⟩ := hg
    -- the slot of the second table holds the same type in the same generation
    have hsame : makeHandle slot
          (grantedEntry (capabilityRun (capabilityTableInit p₁) ops₁) slot type rights object) =
        makeHandle slot ((capabilityRun (capabilityTableInit p₂) ops₂).entries slot) := by
      rw [makeHandle_inj hfit (h₂.typesFit slot)]
      refine ⟨rfl, ?_, ?_⟩
      · rw [hgen, h₂.generation]
        exact hmeet.mpr hmod
      · obtain ⟨-, ht, -⟩ := h₂.held slot g hg
        rw [ht, hty]
        rfl
    have hres := (resolve_iff_held hp₂ h₂ (makeHandle slot
        (grantedEntry (capabilityRun (capabilityTableInit p₁) ops₁) slot type rights object))
        hnn 0 g.object).mpr
      ⟨slot, g, hg, (h₂.held slot g hg).1.trans hsame.symm, hty, by simp, rfl⟩
    rw [hall type 0] at hres
    cases hres
  · intro hcond type' required
    cases hres : capabilityResolve (capabilityRun (capabilityTableInit p₂) ops₂) (makeHandle slot
        (grantedEntry (capabilityRun (capabilityTableInit p₁) ops₁) slot type rights object))
        type' required with
    | none => rfl
    | some o =>
      have hp₂' : (capabilityRun (capabilityTableInit p₂) ops₂).principal ≠ 0 := by
        rw [h₂.principal_eq]
        exact hp₂
      obtain ⟨slot', hh, -, -⟩ :=
        (capabilityResolve_eq_some hp₂' h₂.typesFit _ type' required o).mp hres
      rw [makeHandle_inj hfit (h₂.typesFit slot')] at hh
      obtain ⟨rfl, hg', ht'⟩ := hh
      have hty : ((capabilityRun (capabilityTableInit p₂) ops₂).entries slot).type.toUInt32 =
          type := by
        rw [← ht']
        exact h16
      have hne' : ((capabilityRun (capabilityTableInit p₂) ops₂).entries slot).type ≠ 0 := by
        intro h0
        rw [h0] at hty
        exact hnn hty.symm
      obtain ⟨g, hg⟩ := h₂.held_of_type hne'
      rw [hgen, h₂.generation, hmeet] at hg'
      rcases hcond with hcond | hcond
      · exact absurd ((h₂.type_toUInt32 hg).symm.trans hty) (hcond g hg)
      · exact absurd hg' hcond

/-- Principals 11 and 12, as the boot self-test has them: a clock handle of the first is refused
    by the second, which holds a clock of its own. -/
theorem cross_principal_rejected_boot_pair :
    (capabilityGrant (capabilityRun (capabilityTableInit 11) []) capabilityClock capRightRead
      0x11223344).2 ≠ 0 ∧
    ∀ type required,
      capabilityResolve (capabilityRun (capabilityTableInit 12)
          [.grant capabilityClock capRightRead 0])
        (capabilityGrant (capabilityRun (capabilityTableInit 11) []) capabilityClock capRightRead
          0x11223344).2 type required = none :=
  ⟨by decide +kernel,
    (cross_principal_rejected_iff 11 12 (by decide) [] [.grant capabilityClock capRightRead 0]
      capabilityClock capRightRead 0x11223344 (by decide +kernel) 0 (by decide +kernel)).mpr
      (Or.inr (by decide +kernel))⟩

/-- Principals 2 and 3: after one revocation under principal 2 the clock handle granted there is
    the clock handle of principal 3, whose table resolves it. -/
theorem cross_principal_handle_resolves :
    (2 : UInt64) ≠ 0 ∧ (3 : UInt64) ≠ 0 ∧ (2 : UInt64) ≠ 3 ∧
    (capabilityGrant (capabilityRun (capabilityTableInit 2)
        [.grant capabilityClock capRightRead 0, .revoke 0xA6C538F279BA0101])
        capabilityClock capRightRead 0).2 ≠ 0 ∧
    capabilityResolve (capabilityRun (capabilityTableInit 3)
        [.grant capabilityClock capRightRead 0])
      (capabilityGrant (capabilityRun (capabilityTableInit 2)
          [.grant capabilityClock capRightRead 0, .revoke 0xA6C538F279BA0101])
          capabilityClock capRightRead 0).2
      capabilityClock capRightRead = some 0 := by
  decide +kernel

end ArgusOs.Capability
