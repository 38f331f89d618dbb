/-
  What the RAM file system is for: a finite map from paths to byte strings.

  `FileMap` binds paths to contents and knows nothing of slots, lengths or counters. It is
  driven by the same calls (`mapStep`): a write binds its path unless the path is new and
  sixteen files are bound already, a remove unbinds its path, and nothing else changes it.

  `contents` reads the map off the slots. The file system refines the map when `contents`
  is the map and the state is `Ready`; `ramfs_refines_map` reads the guarantees of each call
  off that, after any run.
-/
import ArgusOs.Ramfs.FileSystem

namespace ArgusOs.Ramfs

open Lib Function

variable {dataPointer : Pointer} {dataLength : UInt64} {fs : RamFs}
  {data : List UInt8}

/-! ## Runs -/

inductive Call where
  | write (state : StatePointer) (path : Pointer) (pathLength : UInt64) (data : Pointer)
      (dataLength : UInt64)
  | read (state : StatePointer) (path : Pointer) (pathLength : UInt64) (output : Bool)
      (capacity : UInt64) (outputLength : Bool)
  | entry (state : StatePointer) (requested : UInt64) (pathOutput : Bool) (capacity : UInt64)
      (pathLength dataLength : Bool)
  | remove (state : StatePointer) (path : Pointer) (pathLength : UInt64)

/-- The state after a call and the status the call returns. -/
def ramfsStep (fs : RamFs) : Call → RamFs × Status
  | .write state path pathLength data dataLength =>
    writeFile fs state path pathLength data dataLength
  | .read state path pathLength output capacity outputLength =>
    (fs, (readFile fs state path pathLength output capacity outputLength).status)
  | .entry state requested pathOutput capacity pathLength dataLength =>
    (fs, (entryAt fs state requested pathOutput capacity pathLength dataLength).status)
  | .remove state path pathLength => removeFile fs state path pathLength

def ramfsRun (fs : RamFs) (calls : List Call) : RamFs :=
  calls.foldl (fun fs call => (ramfsStep fs call).1) fs

/-! ## The map -/

/-- Paths to contents. -/
abbrev FileMap := List UInt8 → Option (List UInt8)

variable {m : FileMap}

/-- How many paths are bound. -/
noncomputable def FileMap.size (m : FileMap) : Nat := {path | (m path).isSome = true}.ncard

/-- The path an argument pair gives, when it is valid. -/
def pathArgument (pointer : Pointer) (length : UInt64) : Option (List UInt8) :=
  (checkedInput pointer length pathCapacity).filter validPath

/-- The data an argument pair gives. -/
def dataArgument (pointer : Pointer) (length : UInt64) : Option (List UInt8) :=
  checkedInput pointer length dataCapacity

/-- There is room for this path. -/
def FileMap.Fits (m : FileMap) (path : List UInt8) : Prop :=
  (m path).isSome = true ∨ m.size < fileCapacity

open Classical in
noncomputable def mapStep (m : FileMap) : Call → FileMap
  | .write state path pathLength data dataLength =>
    match pathArgument path pathLength, dataArgument data dataLength with
    | some path, some data =>
      if state = .aligned ∧ m.Fits path then update m path (some data) else m
    | _, _ => m
  | .read .. => m
  | .entry .. => m
  | .remove state path pathLength =>
    match pathArgument path pathLength with
    | some path => if state = .aligned then update m path none else m
    | none => m

noncomputable def mapRun (calls : List Call) : FileMap := calls.foldl mapStep fun _ => none

/-! ## The map a state stands for -/

def contents (fs : RamFs) : FileMap := fun path =>
  (findFile fs path).map fun slot => (fs.files slot).dataBytes

theorem contents_of_live (h : Ready fs) {i : Fin 16} (hi : fs.live i = true) :
    contents fs (fs.files i).pathBytes = some (fs.files i).dataBytes := by
  simp [contents, (h.findFile_eq_some _ i).mpr ⟨hi, rfl⟩]

theorem contents_eq_none (h : Ready fs) (path : List UInt8) :
    contents fs path = none ↔ ∀ i, fs.live i = true → (fs.files i).pathBytes ≠ path := by
  simp [contents, h.findFile_eq_none]

theorem contents_isSome (h : Ready fs) (path : List UInt8) :
    (contents fs path).isSome = true ↔ ∃ i, fs.live i = true ∧ (fs.files i).pathBytes = path := by
  rw [Option.isSome_iff_ne_none, Ne, contents_eq_none h]
  push Not
  rfl

/-- As many paths are bound as slots are used. -/
theorem contents_size (h : Ready fs) : (contents fs).size = slotCount fs.live := by
  have himage : {path | (contents fs path).isSome = true} =
      (fun i => (fs.files i).pathBytes) '' {i | fs.live i = true} := by
    ext path
    simp [contents_isSome h]
  unfold FileMap.size
  rw [himage, Set.InjOn.ncard_image]
  · rw [Set.ncard_eq_toFinset_card']
    simp [slotCount]
  · intro i hi j hj heq
    exact h.unique i j hi hj heq

theorem contents_empty : contents emptyFs = fun _ => none := by
  funext path
  rw [contents_eq_none emptyFs_ready]
  intro i hi
  simp [emptyFs, RamFs.live, FileEntry.zero] at hi

variable {slot : Fin 16}

/-- A path that the changed slot has neither before nor after keeps its contents. -/
theorem contents_elsewhere {fs' : RamFs} {p : List UInt8} (h : Ready fs) (h' : Ready fs')
    (hother : ∀ i, i ≠ slot → fs'.live i = fs.live i ∧ fs'.files i = fs.files i)
    (hbefore : fs.live slot = true → (fs.files slot).pathBytes ≠ p)
    (hafter : fs'.live slot = true → (fs'.files slot).pathBytes ≠ p) :
    contents fs' p = contents fs p := by
  cases hf : contents fs p with
  | none =>
    rw [contents_eq_none h] at hf
    rw [contents_eq_none h']
    intro i hi
    by_cases his : i = slot
    · rw [his] at hi ⊢
      exact hafter hi
    · obtain ⟨hlive, hfile⟩ := hother i his
      rw [hlive] at hi
      rw [hfile]
      exact hf i hi
  | some d =>
    obtain ⟨i, hi, hip⟩ := (contents_isSome h p).mp (by rw [hf]; rfl)
    have his : i ≠ slot := by
      intro his
      rw [his] at hi hip
      exact hbefore hi hip
    obtain ⟨hlive, hfile⟩ := hother i his
    have h1 := contents_of_live h hi
    have h2 := contents_of_live h' (hlive.trans hi)
    rw [hfile, hip] at h2
    rw [hip, hf] at h1
    rw [h2, h1]

theorem contents_store {path : List UInt8} (h : Ready fs)
    (hafter : Ready (storeFile fs slot path data)) (hpath : path.length ≤ pathCapacity)
    (hdata : data.length ≤ dataCapacity)
    (hslot : fs.live slot = true → (fs.files slot).pathBytes = path) :
    contents (storeFile fs slot path data) = update (contents fs) path (some data) := by
  obtain ⟨hp, hd, _⟩ := storeFile_same fs slot hpath hdata
  funext p
  by_cases hpp : p = path
  · subst hpp
    have := contents_of_live hafter (i := slot) storeFile_live_same
    rw [hp, hd] at this
    rw [update_self, this]
  · rw [update_of_ne hpp]
    refine contents_elsewhere h hafter
      (fun i his => ⟨storeFile_live_other his, storeFile_other his⟩) ?_ ?_
    · intro hlive heq
      exact hpp (heq.symm.trans (hslot hlive))
    · intro _ heq
      exact hpp (heq.symm.trans hp)

theorem contents_clear (h : Ready fs) (hlive : fs.live slot = true) :
    contents (clearFile fs slot) =
      update (contents fs) (fs.files slot).pathBytes none := by
  have hafter := h.clear hlive
  funext p
  by_cases hpp : p = (fs.files slot).pathBytes
  · rw [hpp, update_self, contents_eq_none hafter]
    intro i hi heq
    have his : i ≠ slot := by
      intro his
      rw [his, clearFile_live_same] at hi
      cases hi
    rw [clearFile_live_other his] at hi
    rw [clearFile_other his] at heq
    exact his (h.unique i slot hi hlive heq)
  · rw [update_of_ne hpp]
    refine contents_elsewhere h hafter
      (fun i his => ⟨clearFile_live_other his, clearFile_other his⟩) (fun _ => Ne.symm hpp) ?_
    intro hlive
    rw [clearFile_live_same] at hlive
    cases hlive

/-! ## What each call does -/

theorem checkedInput_length {pointer : Pointer} {length : UInt64} {maximum : Nat}
    {input : List UInt8} (h : checkedInput pointer length maximum = some input) :
    input.length ≤ maximum := by
  unfold checkedInput at h
  split at h
  · cases h
  · next hc =>
    rw [not_or] at hc
    cases h
    rw [bytesOf_length]
    omega

theorem pathArgument_eq_some {pointer : Pointer} {length : UInt64} {path : List UInt8} :
    pathArgument pointer length = some path ↔
      checkedInput pointer length pathCapacity = some path ∧ validPath path = true := by
  simp [pathArgument, Option.filter_eq_some_iff]

section Calls

variable {pointer : Pointer} {length : UInt64} {path : List UInt8}

/-- The slot of a write is the slot of the path, or an unused one when the path is new. -/
theorem writeSlot_cases (h : Ready fs) (path : List UInt8) :
    (writeSlot fs path = none ∧ ¬ (contents fs).Fits path) ∨
    (∃ slot, writeSlot fs path = some slot ∧ (contents fs).Fits path ∧
      (fs.live slot = true → (fs.files slot).pathBytes = path) ∧
      ∀ j, j ≠ slot → fs.live j = true → (fs.files j).pathBytes ≠ path) := by
  unfold writeSlot
  cases hf : findFile fs path with
  | some slot =>
    obtain ⟨hlive, hp⟩ := (h.findFile_eq_some path slot).mp hf
    refine Or.inr ⟨slot, rfl, ?_, fun _ => hp, ?_⟩
    · exact Or.inl ((contents_isSome h path).mpr ⟨slot, hlive, hp⟩)
    · intro j hj hjl heq
      exact hj (h.unique j slot hjl hlive (heq.trans hp.symm))
  | none =>
    have hno := (h.findFile_eq_none path).mp hf
    dsimp only
    cases hs : firstSlot fun i => decide ((fs.files i).used = 0) with
    | some slot =>
      have hu : (fs.files slot).used = 0 := by simpa using firstSlot_true hs
      have hlive : fs.live slot = false := by simp [RamFs.live, hu]
      refine Or.inr ⟨slot, rfl, Or.inr ?_, ?_, fun j _ => hno j⟩
      · -- an unused slot leaves fewer than all of them used
        rw [contents_size h]
        have hadd : slotCount (fun j => fs.live j || decide (j = slot)) =
          slotCount fs.live + 1 := by
          apply slotCount_of_update hlive
          · simp
          · intro j hj
            simp [hj]
        have hle := slotCount_le fun j => fs.live j || decide (j = slot)
        unfold fileCapacity
        omega
      · intro hl
        rw [hlive] at hl
        cases hl
    | none =>
      refine Or.inl ⟨rfl, ?_⟩
      have hall : ∀ i, fs.live i = true := by
        intro i
        have := (firstSlot_eq_none _).mp hs i
        simpa [RamFs.live] using this
      rintro (hsome | hlt)
      · obtain ⟨i, hi, hp⟩ := (contents_isSome h path).mp hsome
        exact hno i hi hp
      · rw [contents_size h, slotCount_congr (q := fun _ => true) hall] at hlt
        simp [slotCount, fileCapacity] at hlt

theorem writeFile_some (h : Ready fs) (hpath : pathArgument pointer length = some path)
    (hdata : dataArgument dataPointer dataLength = some data) :
    writeFile fs .aligned pointer length dataPointer dataLength =
      match writeSlot fs path with
      | none => (fs, .noSpace)
      | some slot => (storeFile fs slot path data, .ok) := by
  rw [pathArgument_eq_some] at hpath
  unfold dataArgument at hdata
  unfold writeFile
  rw [hpath.1, hdata]
  dsimp only
  rw [hpath.2, h.stateRef]
  rfl

theorem writeFile_fits (h : Ready fs) (hpath : pathArgument pointer length = some path)
    (hdata : dataArgument dataPointer dataLength = some data) (hfits : (contents fs).Fits path) :
    (writeFile fs .aligned pointer length dataPointer dataLength).2 = .ok ∧
    Ready (writeFile fs .aligned pointer length dataPointer dataLength).1 ∧
    contents (writeFile fs .aligned pointer length dataPointer dataLength).1 =
      update (contents fs) path (some data) := by
  have hp := checkedInput_length (pathArgument_eq_some.mp hpath).1
  have hd : data.length ≤ dataCapacity := checkedInput_length hdata
  have hv := (pathArgument_eq_some.mp hpath).2
  rw [writeFile_some h hpath hdata]
  rcases writeSlot_cases h path with ⟨_, hno⟩ | ⟨slot, hs, _, hsame, hother⟩
  · exact absurd hfits hno
  · rw [hs]
    have hafter : Ready (storeFile fs slot path data) := h.store hp hd hv hother
    exact ⟨rfl, hafter, contents_store h hafter hp hd hsame⟩

theorem writeFile_full (h : Ready fs) (hpath : pathArgument pointer length = some path)
    (hdata : dataArgument dataPointer dataLength = some data) (hfull : ¬ (contents fs).Fits path) :
    writeFile fs .aligned pointer length dataPointer dataLength = (fs, .noSpace) := by
  rw [writeFile_some h hpath hdata]
  rcases writeSlot_cases h path with ⟨hs, _⟩ | ⟨_, _, hfits, _⟩
  · rw [hs]
  · exact absurd hfits hfull

/-- Without a valid path, data and state pointer a write answers an error. -/
theorem writeFile_refused {state : StatePointer}
    (h : pathArgument pointer length = none ∨ dataArgument dataPointer dataLength = none ∨
      state ≠ .aligned) :
    (writeFile fs state pointer length dataPointer dataLength).1 = fs := by
  unfold writeFile
  cases hp : checkedInput pointer length pathCapacity with
  | none => simp
  | some p =>
    cases hd : checkedInput dataPointer dataLength dataCapacity with
    | none => simp
    | some d =>
      cases hv : validPath p with
      | false => simp [hv]
      | true =>
        have hstate : state ≠ .aligned := by
          rcases h with h | h | h
          · simp [pathArgument, hp, hv] at h
          · simp [dataArgument, hd] at h
          · exact h
        cases state with
        | null | misaligned => simp [hv, stateRef]
        | aligned => exact absurd rfl hstate

theorem removeFile_bound (h : Ready fs) (hpath : pathArgument pointer length = some path)
    (hbound : (contents fs path).isSome = true) :
    (removeFile fs .aligned pointer length).2 = .ok ∧
    Ready (removeFile fs .aligned pointer length).1 ∧
    contents (removeFile fs .aligned pointer length).1 = update (contents fs) path none := by
  obtain ⟨slot, hlive, hp⟩ := (contents_isSome h path).mp hbound
  rw [pathArgument_eq_some] at hpath
  have heq : removeFile fs .aligned pointer length = (clearFile fs slot, .ok) := by
    simp [removeFile, hpath.1, hpath.2, h.stateRef, (h.findFile_eq_some path slot).mpr ⟨hlive, hp⟩]
  rw [heq, ← hp]
  exact ⟨rfl, h.clear hlive, contents_clear h hlive⟩

theorem removeFile_unbound (h : Ready fs) (hpath : pathArgument pointer length = some path)
    (hnone : contents fs path = none) :
    removeFile fs .aligned pointer length = (fs, .notFound) := by
  rw [contents_eq_none h, ← h.findFile_eq_none] at hnone
  rw [pathArgument_eq_some] at hpath
  simp [removeFile, hpath.1, hpath.2, h.stateRef, hnone]

theorem removeFile_refused {state : StatePointer}
    (h : pathArgument pointer length = none ∨ state ≠ .aligned) :
    (removeFile fs state pointer length).1 = fs := by
  unfold removeFile
  cases hp : checkedInput pointer length pathCapacity with
  | none => simp
  | some p =>
    cases hv : validPath p with
    | false => simp [hv]
    | true =>
      have hstate : state ≠ .aligned := by
        rcases h with h | h
        · simp [pathArgument, hp, hv] at h
        · exact h
      cases state with
      | null | misaligned => simp [hv, stateRef]
      | aligned => exact absurd rfl hstate

/-- What a read answers for a path with these contents. -/
def readAnswer (data : Option (List UInt8)) (output : Bool) (capacity : UInt64) : Reading :=
  match data with
  | none => ⟨.notFound, none, none⟩
  | some data =>
    let length := UInt64.ofNat data.length
    if capacity < length then ⟨.bufferTooSmall, some length, none⟩
    else if data = [] then ⟨.ok, some length, none⟩
    else if output = false then ⟨.invalid, some length, none⟩
    else ⟨.ok, some length, some data⟩

theorem readFile_answer (h : Ready fs) (hpath : pathArgument pointer length = some path)
    (output : Bool) (capacity : UInt64) :
    readFile fs .aligned pointer length output capacity true =
      readAnswer (contents fs path) output capacity := by
  rw [pathArgument_eq_some] at hpath
  unfold readFile contents
  rw [hpath.1]
  dsimp only
  rw [hpath.2, h.stateRef]
  simp only [Bool.true_eq_false, or_self, if_false]
  cases hf : findFile fs path with
  | none => rfl
  | some slot =>
    have hlen : (fs.files slot).dataBytes.length = (fs.files slot).dataLength.toNat :=
      bytesOf_length _ _
    have hword : UInt64.ofNat (fs.files slot).dataBytes.length =
        (fs.files slot).dataLength.toUInt64 := by
      rw [hlen, ← UInt64.toNat_inj, UInt64.toNat_ofNat', UInt16.toNat_toUInt64]
      have := (fs.files slot).dataLength.toNat_lt
      omega
    have hempty : (fs.files slot).dataLength.toUInt64 = 0 ↔ (fs.files slot).dataBytes = [] := by
      rw [← List.length_eq_zero_iff, hlen, ← UInt64.toNat_inj, UInt16.toNat_toUInt64]
      rfl
    simp only [readAnswer, Option.map_some, hword]
    by_cases h0 : (fs.files slot).dataBytes = []
    · simp [h0, hempty.mpr h0]
    · have h1 : (fs.files slot).dataLength.toUInt64 ≠ 0 := fun hc => h0 (hempty.mp hc)
      simp [h0, h1]

end Calls

/-! ## Enumeration -/

/-- The used slots in order. -/
def liveSlots (fs : RamFs) : List (Fin 16) := (List.finRange 16).filter fs.live

theorem liveSlots_length (fs : RamFs) : (liveSlots fs).length = slotCount fs.live := by
  have hset : (liveSlots fs).toFinset = Finset.univ.filter fun i => fs.live i = true := by
    ext i
    simp [liveSlots]
  unfold slotCount
  rw [← hset, List.toFinset_card_of_nodup]
  exact (List.nodup_finRange 16).filter _

/-- The scan finds the used slot of that ordinal. -/
theorem entryScan_eq (fs : RamFs) (requested : UInt64) (indices : List (Fin 16)) (ordinal : UInt64)
    (hle : ordinal.toNat ≤ requested.toNat) :
    entryScan fs requested indices ordinal =
      (indices.filter fs.live)[requested.toNat - ordinal.toNat]? := by
  induction indices generalizing ordinal with
  | nil => simp [entryScan]
  | cons index rest ih =>
    unfold entryScan
    by_cases hu : (fs.files index).used ≠ 0
    · have hlive : fs.live index = true := by simp [RamFs.live, hu]
      rw [if_pos hu, List.filter_cons_of_pos hlive]
      by_cases heq : ordinal = requested
      · simp [heq]
      · have hne : ordinal.toNat ≠ requested.toNat := fun hc => heq (UInt64.toNat_inj.mp hc)
        have hlt := requested.toNat_lt
        have hsucc : (ordinal + 1).toNat = ordinal.toNat + 1 := by
          rw [UInt64.toNat_add, show (1 : UInt64).toNat = 1 from rfl]
          omega
        rw [if_neg heq, ih (ordinal + 1) (by omega), hsucc]
        obtain ⟨k, hk⟩ : ∃ k, requested.toNat - ordinal.toNat = k + 1 :=
          ⟨requested.toNat - ordinal.toNat - 1, by omega⟩
        rw [hk, List.getElem?_cons_succ]
        congr 1
        omega
    · have hlive : fs.live index = false := by simpa [RamFs.live] using hu
      rw [if_neg hu, List.filter_cons_of_neg (by simp [hlive])]
      exact ih ordinal hle

/-- What an enumeration step answers for a file of this path and size. -/
def entryAnswer (file : Option (List UInt8 × Nat)) (output : Bool) (capacity : UInt64) : Listing :=
  match file with
  | none => ⟨.notFound, none, none, none⟩
  | some (path, size) =>
    let length := UInt64.ofNat path.length
    let size := UInt64.ofNat size
    if capacity < length then ⟨.bufferTooSmall, some length, some size, none⟩
    else if path = [] then ⟨.ok, some length, some size, none⟩
    else if output = false then ⟨.invalid, some length, some size, none⟩
    else ⟨.ok, some length, some size, some path⟩

/-- Path and size of the used slots in order. -/
def listing (fs : RamFs) : List (List UInt8 × Nat) :=
  (liveSlots fs).map fun i => ((fs.files i).pathBytes, (fs.files i).dataBytes.length)

theorem entryAt_answer (h : Ready fs) (requested : UInt64) (output : Bool) (capacity : UInt64) :
    entryAt fs .aligned requested output capacity true true =
      entryAnswer (listing fs)[requested.toNat]? output capacity := by
  have hscan := entryScan_eq fs requested (List.finRange 16) 0 (Nat.zero_le _)
  rw [show (0 : UInt64).toNat = 0 from rfl, Nat.sub_zero] at hscan
  unfold entryAt
  rw [h.stateRef]
  simp only [Bool.true_eq_false, or_self, if_false]
  rw [hscan]
  unfold listing liveSlots
  rw [List.getElem?_map]
  cases ((List.finRange 16).filter fs.live)[requested.toNat]? with
  | none => rfl
  | some i =>
    have hlen : (fs.files i).pathBytes.length = (fs.files i).pathLength.toNat := bytesOf_length _ _
    have hsize : (fs.files i).dataBytes.length = (fs.files i).dataLength.toNat := bytesOf_length _ _
    have hword : UInt64.ofNat (fs.files i).pathBytes.length = (fs.files i).pathLength.toUInt64 := by
      rw [hlen, ← UInt64.toNat_inj, UInt64.toNat_ofNat', UInt8.toNat_toUInt64]
      have := (fs.files i).pathLength.toNat_lt
      omega
    have hword' : UInt64.ofNat (fs.files i).dataBytes.length =
        (fs.files i).dataLength.toUInt64 := by
      rw [hsize, ← UInt64.toNat_inj, UInt64.toNat_ofNat', UInt16.toNat_toUInt64]
      have := (fs.files i).dataLength.toNat_lt
      omega
    have hempty : (fs.files i).pathLength.toUInt64 = 0 ↔ (fs.files i).pathBytes = [] := by
      rw [← List.length_eq_zero_iff, hlen, ← UInt64.toNat_inj, UInt8.toNat_toUInt64]
      rfl
    simp only [entryAnswer, Option.map_some, hword, hword']
    by_cases h0 : (fs.files i).pathBytes = []
    · simp [h0, hempty.mpr h0]
    · have h1 : (fs.files i).pathLength.toUInt64 ≠ 0 := fun hc => h0 (hempty.mp hc)
      simp [h0, h1]

/-! ## The refinement -/

structure Refines (fs : RamFs) (m : FileMap) : Prop where
  ready : Ready fs
  contents_eq : contents fs = m

theorem Refines.step (h : Refines fs m) (call : Call) :
    Refines (ramfsStep fs call).1 (mapStep m call) := by
  obtain ⟨hready, rfl⟩ := h
  cases call with
  | read | entry => exact ⟨hready, rfl⟩
  | write state path pathLength data dataLength =>
    have hkeep : ∀ {m : FileMap}, (pathArgument path pathLength = none ∨
        dataArgument data dataLength = none ∨ state ≠ .aligned) → m = contents fs →
        Refines (writeFile fs state path pathLength data dataLength).1 m := by
      intro m hc hm
      rw [writeFile_refused hc]
      exact ⟨hready, hm.symm⟩
    show Refines (writeFile fs state path pathLength data dataLength).1 _
    cases hp : pathArgument path pathLength with
    | none => exact hkeep (Or.inl hp) (by simp only [mapStep, hp])
    | some p =>
      cases hd : dataArgument data dataLength with
      | none => exact hkeep (Or.inr (Or.inl hd)) (by simp only [mapStep, hp, hd])
      | some d =>
        by_cases hs : state = .aligned
        · subst hs
          by_cases hfits : (contents fs).Fits p
          · obtain ⟨_, hafter, hcont⟩ := writeFile_fits hready hp hd hfits
            exact ⟨hafter, by simp [mapStep, hp, hd, hfits, hcont]⟩
          · rw [writeFile_full hready hp hd hfits]
            exact ⟨hready, by simp [mapStep, hp, hd, hfits]⟩
        · exact hkeep (Or.inr (Or.inr hs)) (by simp [mapStep, hp, hd, hs])
  | remove state path pathLength =>
    show Refines (removeFile fs state path pathLength).1 _
    cases hp : pathArgument path pathLength with
    | none =>
      rw [removeFile_refused (Or.inl hp)]
      exact ⟨hready, by simp only [mapStep, hp]⟩
    | some p =>
      by_cases hs : state = .aligned
      · subst hs
        have hstep : mapStep (contents fs) (.remove .aligned path pathLength) =
            update (contents fs) p none := by
          simp [mapStep, hp]
        rw [hstep]
        cases hf : contents fs p with
        | none =>
          rw [removeFile_unbound hready hp hf]
          refine ⟨hready, ?_⟩
          rw [← hf, update_eq_self]
        | some d =>
          obtain ⟨_, hafter, hcont⟩ := removeFile_bound hready hp (by rw [hf]; rfl)
          exact ⟨hafter, hcont⟩
      · rw [removeFile_refused (Or.inr hs)]
        exact ⟨hready, by simp [mapStep, hp, hs]⟩

theorem Refines.run (h : Refines fs m) (calls : List Call) :
    Refines (ramfsRun fs calls) (calls.foldl mapStep m) := by
  induction calls generalizing fs m with
  | nil => exact h
  | cons call rest ih => exact ih (h.step call)

/-- A call that does not answer OK leaves the state as it was. -/
theorem ramfsStep_failed (h : Ready fs) (call : Call) (hfail : (ramfsStep fs call).2 ≠ .ok) :
    (ramfsStep fs call).1 = fs := by
  cases call with
  | read | entry => rfl
  | write state path pathLength data dataLength =>
    change (writeFile fs state path pathLength data dataLength).2 ≠ .ok at hfail
    show (writeFile fs state path pathLength data dataLength).1 = fs
    by_cases hc : pathArgument path pathLength = none ∨ dataArgument data dataLength = none ∨
        state ≠ .aligned
    · exact writeFile_refused hc
    · rw [not_or, not_or, not_not] at hc
      obtain ⟨hp, hd, rfl⟩ := hc
      obtain ⟨p, hp⟩ := Option.ne_none_iff_exists'.mp hp
      obtain ⟨d, hd⟩ := Option.ne_none_iff_exists'.mp hd
      by_cases hfits : (contents fs).Fits p
      · exact absurd (writeFile_fits h hp hd hfits).1 hfail
      · rw [writeFile_full h hp hd hfits]
  | remove state path pathLength =>
    change (removeFile fs state path pathLength).2 ≠ .ok at hfail
    show (removeFile fs state path pathLength).1 = fs
    by_cases hc : pathArgument path pathLength = none ∨ state ≠ .aligned
    · exact removeFile_refused hc
    · rw [not_or, not_not] at hc
      obtain ⟨hp, rfl⟩ := hc
      obtain ⟨p, hp⟩ := Option.ne_none_iff_exists'.mp hp
      cases hf : contents fs p with
      | none => rw [removeFile_unbound h hp hf]
      | some d => exact absurd (removeFile_bound h hp (by rw [hf]; rfl)).1 hfail

/-- What the file system guarantees in a state that stands for the map `m`. -/
structure RamfsSound (fs : RamFs) (m : FileMap) : Prop where
  valid : validFilesystem fs = true
  distinct : ∀ i j, (fs.files i).used ≠ 0 → (fs.files j).used ≠ 0 →
    (fs.files i).pathBytes = (fs.files j).pathBytes → i = j
  only_valid : ∀ path, (m path).isSome = true → validPath path = true ∧ path.length ≤ pathCapacity
  write : ∀ (path data : Pointer) (pathLength dataLength : UInt64) (p d : List UInt8),
    pathArgument path pathLength = some p → dataArgument data dataLength = some d →
    (m p = none ∧ m.size = fileCapacity →
      writeFile fs .aligned path pathLength data dataLength = (fs, .noSpace)) ∧
    (¬ (m p = none ∧ m.size = fileCapacity) →
      (writeFile fs .aligned path pathLength data dataLength).2 = .ok ∧
      contents (writeFile fs .aligned path pathLength data dataLength).1 =
        update m p (some d))
  read : ∀ (path : Pointer) (pathLength : UInt64) (p : List UInt8) (output : Bool)
    (capacity : UInt64), pathArgument path pathLength = some p →
    readFile fs .aligned path pathLength output capacity true = readAnswer (m p) output capacity
  read_not_found : ∀ (path : Pointer) (pathLength : UInt64) (p : List UInt8) (output : Bool)
    (capacity : UInt64), pathArgument path pathLength = some p →
    ((readFile fs .aligned path pathLength output capacity true).status = .notFound ↔ m p = none)
  remove : ∀ (path : Pointer) (pathLength : UInt64) (p : List UInt8),
    pathArgument path pathLength = some p →
    ((removeFile fs .aligned path pathLength).2 = if m p = none then .notFound else .ok) ∧
    contents (removeFile fs .aligned path pathLength).1 = update m p none
  enumerate : ∃ files : List (List UInt8 × Nat), (files.map Prod.fst).Nodup ∧
    files.length = m.size ∧
    (∀ path size, (path, size) ∈ files ↔ ∃ data, m path = some data ∧ data.length = size) ∧
    ∀ (requested : UInt64) (output : Bool) (capacity : UInt64),
      entryAt fs .aligned requested output capacity true true =
        entryAnswer files[requested.toNat]? output capacity
  failed : ∀ call, (ramfsStep fs call).2 ≠ .ok → (ramfsStep fs call).1 = fs

theorem size_le (h : Ready fs) : (contents fs).size ≤ fileCapacity := by
  rw [contents_size h]
  exact slotCount_le _

theorem not_fits_iff (h : Ready fs) (path : List UInt8) :
    ¬ (contents fs).Fits path ↔ contents fs path = none ∧ (contents fs).size = fileCapacity := by
  have hle := size_le h
  unfold FileMap.Fits
  rw [not_or, Option.isSome_iff_ne_none, not_not]
  constructor
  · rintro ⟨h1, h2⟩
    exact ⟨h1, by omega⟩
  · rintro ⟨h1, h2⟩
    exact ⟨h1, by omega⟩

theorem readAnswer_notFound (data : Option (List UInt8)) (output : Bool) (capacity : UInt64) :
    (readAnswer data output capacity).status = .notFound ↔ data = none := by
  cases data with
  | none => simp [readAnswer]
  | some d =>
    simp only [readAnswer, reduceCtorEq, iff_false]
    split
    · simp
    · split
      · simp
      · split <;> simp

/-- The listing names each bound path once, with the length of its contents. -/
theorem listing_spec (h : Ready fs) :
    ((listing fs).map Prod.fst).Nodup ∧ (listing fs).length = (contents fs).size ∧
    ∀ path size, (path, size) ∈ listing fs ↔
      ∃ data, contents fs path = some data ∧ data.length = size := by
  have hmem : ∀ i, i ∈ liveSlots fs ↔ fs.live i = true := by
    intro i
    simp [liveSlots]
  refine ⟨?_, ?_, ?_⟩
  · unfold listing
    rw [List.map_map]
    apply List.Nodup.map_on
    · intro i hi j hj heq
      exact h.unique i j ((hmem i).mp hi) ((hmem j).mp hj) heq
    · exact (List.nodup_finRange 16).filter _
  · rw [contents_size h, ← liveSlots_length]
    simp [listing]
  · intro path size
    unfold listing
    rw [List.mem_map]
    constructor
    · rintro ⟨i, hi, heq⟩
      cases heq
      exact ⟨_, contents_of_live h ((hmem i).mp hi), rfl⟩
    · rintro ⟨data, hd, rfl⟩
      obtain ⟨i, hi, rfl⟩ := (contents_isSome h path).mp (by rw [hd]; rfl)
      refine ⟨i, (hmem i).mpr hi, ?_⟩
      rw [contents_of_live h hi] at hd
      cases hd
      rfl

theorem Refines.sound (h : Refines fs m) : RamfsSound fs m := by
  obtain ⟨hready, rfl⟩ := h
  refine {
    valid := hready.valid
    distinct := ?_
    only_valid := ?_
    write := ?_
    read := ?_
    read_not_found := ?_
    remove := ?_
    enumerate := ?_
    failed := fun call => ramfsStep_failed hready call }
  · intro i j hi hj
    exact hready.unique i j (by simpa [RamFs.live] using hi) (by simpa [RamFs.live] using hj)
  · intro path hsome
    obtain ⟨i, hi, rfl⟩ := (contents_isSome hready path).mp hsome
    obtain ⟨hcap, _, hv⟩ := hready.live_entry hi
    exact ⟨hv, by simpa [FileEntry.pathBytes] using hcap⟩
  · intro path data pathLength dataLength p d hp hd
    rw [← not_fits_iff hready, not_not]
    refine ⟨writeFile_full hready hp hd, ?_⟩
    intro hfits
    obtain ⟨hok, _, hcont⟩ := writeFile_fits hready hp hd hfits
    exact ⟨hok, hcont⟩
  · intro path pathLength p output capacity hp
    exact readFile_answer hready hp output capacity
  · intro path pathLength p output capacity hp
    rw [readFile_answer hready hp output capacity]
    exact readAnswer_notFound _ _ _
  · intro path pathLength p hp
    cases hf : contents fs p with
    | none =>
      rw [removeFile_unbound hready hp hf, if_pos rfl]
      refine ⟨rfl, ?_⟩
      rw [← hf, update_eq_self]
    | some d =>
      obtain ⟨hok, _, hcont⟩ := removeFile_bound hready hp (by rw [hf]; rfl)
      rw [if_neg (by simp)]
      exact ⟨hok, hcont⟩
  · obtain ⟨h1, h2, h3⟩ := listing_spec hready
    exact ⟨listing fs, h1, h2, h3, entryAt_answer hready⟩

/-- From `initialize`, every run of calls leaves a file system that stands for the map the same
    calls build, and every call answers as that map says. -/
theorem ramfs_refines_map (memory : RamFs) (stateSize : UInt64) (hsize : stateBytes ≤ stateSize)
    (calls : List Call) :
    (ramfsInitialize memory .aligned stateSize).2 = .ok ∧
    contents (ramfsRun (ramfsInitialize memory .aligned stateSize).1 calls) = mapRun calls ∧
    RamfsSound (ramfsRun (ramfsInitialize memory .aligned stateSize).1 calls) (mapRun calls) := by
  have hinit : ramfsInitialize memory .aligned stateSize = (emptyFs, .ok) := by
    unfold ramfsInitialize
    rw [if_neg]
    rintro (hc | hc)
    · exact hc rfl
    · rw [UInt64.lt_iff_toNat_lt] at hc
      rw [UInt64.le_iff_toNat_le] at hsize
      omega
  rw [hinit]
  have hrun : Refines (ramfsRun emptyFs calls) (mapRun calls) :=
    Refines.run ⟨emptyFs_ready, contents_empty⟩ calls
  exact ⟨rfl, hrun.contents_eq, hrun.sound⟩

/-- Write a file, replace it, remove it. -/
def replaceCalls : List Call :=
  [.write .aligned (some fun i => [47, 97].getD i 0) 2 (some fun _ => 120) 1,
   .write .aligned (some fun i => [47, 97].getD i 0) 2 (some fun _ => 121) 3,
   .read .null none 0 false 0 false,
   .remove .aligned (some fun i => [47, 97].getD i 0) 2]

theorem ramfs_refines_map_replace :
    stateBytes ≤ (32768 : UInt64) ∧
    (ramfsInitialize emptyFs .aligned 32768).2 = .ok ∧
    contents (ramfsRun (ramfsInitialize emptyFs .aligned 32768).1 replaceCalls) =
      mapRun replaceCalls ∧
    RamfsSound (ramfsRun (ramfsInitialize emptyFs .aligned 32768).1 replaceCalls)
      (mapRun replaceCalls) :=
  ⟨by decide, ramfs_refines_map emptyFs 32768 (by decide) replaceCalls⟩

end ArgusOs.Ramfs
