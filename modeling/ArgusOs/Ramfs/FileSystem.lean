/-
  The RAM file system: `rust_ramfs.rs`.

  Sixteen slots, each with a path of at most 48 bytes and at most 1024 bytes of data. A byte
  pointer is null or gives the bytes that can be read through it (`Pointer`), so that an
  accepted pair of pointer and length is a list of bytes. Results are the status together
  with what is stored through the output pointers.

  Every call revalidates the whole state before it looks at it (`stateRef`). That no two
  slots hold the same path is checked nowhere; it is part of `Ready`, which every call keeps.
-/
import ArgusOs.Lib.Bytes
import ArgusOs.Lib.Slots

namespace ArgusOs.Ramfs

open Lib Function

def fileCapacity : Nat := 16
def pathCapacity : Nat := 48
def dataCapacity : Nat := 1024
def ramfsMagic : UInt64 := 0x4152475553524653
/-- `size_of::<RamFs>()`. -/
def stateBytes : UInt64 := 17232

inductive Status where
  | ok
  | notFound
  | invalid
  | noSpace
  | bufferTooSmall
  deriving DecidableEq, Repr

structure FileEntry where
  used : UInt8
  pathLength : UInt8
  dataLength : UInt16
  path : Nat → UInt8
  data : Nat → UInt8

def FileEntry.zero : FileEntry := ⟨0, 0, 0, fun _ => 0, fun _ => 0⟩

structure RamFs where
  magic : UInt64
  fileCount : UInt32
  files : Fin 16 → FileEntry

/-! ## Arguments -/

/-- A byte pointer: null, or what can be read through it. -/
abbrev Pointer := Option (Nat → UInt8)

/-- The state pointer of a call. -/
inductive StatePointer where
  | null
  | misaligned
  | aligned
  deriving DecidableEq, Repr

def checkedInput (pointer : Pointer) (length : UInt64) (maximum : Nat) : Option (List UInt8) :=
  if length.toNat > maximum ∨ (length ≠ 0 ∧ pointer.isNone) then none
  else some (bytesOf (pointer.getD fun _ => 0) length.toNat)

def inputAt (input : List UInt8) (index : Nat) : UInt8 := input.getD index 0

/-! ## Paths -/

def slash : UInt8 := 47
def dot : UInt8 := 46
def backslash : UInt8 := 92

/-- The loop of `valid_path` at `index`, `left` turns before its end. -/
def validPathLoop (path : List UInt8) : Nat → Nat → Nat → Bool
  | 0, _, _ => true
  | left + 1, index, segmentStart =>
    if index = path.length ∨ inputAt path index = slash then
      let segmentLength := index - segmentStart
      if segmentLength = 0 ∨ (segmentLength = 1 ∧ inputAt path segmentStart = dot) ∨
          (segmentLength = 2 ∧ inputAt path segmentStart = dot ∧
            inputAt path (segmentStart + 1) = dot) then false
      else validPathLoop path left (index + 1) (index + 1)
    else
      let byte := inputAt path index
      if ¬ (33 ≤ byte ∧ byte ≤ 126) ∨ byte = backslash then false
      else validPathLoop path left (index + 1) segmentStart

def validPath (path : List UInt8) : Bool :=
  if path.length < 2 ∨ inputAt path 0 ≠ slash ∨ inputAt path (path.length - 1) = slash then false
  else validPathLoop path path.length 1 1

/-! ## Entries -/

variable (entry : FileEntry)

/-- The stored path. -/
def FileEntry.pathBytes : List UInt8 := bytesOf entry.path entry.pathLength.toNat

/-- The stored data. -/
def FileEntry.dataBytes : List UInt8 := bytesOf entry.data entry.dataLength.toNat

def pathMatches (path : List UInt8) : Bool :=
  let length := entry.pathLength.toNat
  if entry.used = 0 ∨ length > pathCapacity ∨ length ≠ path.length then false
  else (List.range length).all fun index => entry.path index = inputAt path index

def entryValid : Bool :=
  if entry.used ≠ 0 then
    entry.pathLength.toNat ≤ pathCapacity ∧ entry.dataLength.toNat ≤ dataCapacity ∧
      validPath entry.pathBytes
  else entry.pathLength = 0 ∧ entry.dataLength = 0

variable (fs : RamFs)

def validFilesystem : Bool :=
  fs.fileCount.toNat ≤ fileCapacity ∧ (∀ i, entryValid (fs.files i)) ∧
    slotCount (fun i => (fs.files i).used ≠ 0) = fs.fileCount.toNat

/-- `state_mut` and `state_ref`. -/
def stateRef (state : StatePointer) : Option RamFs :=
  match state with
  | .null => none
  | .misaligned => none
  | .aligned => if fs.magic ≠ ramfsMagic ∨ validFilesystem fs = false then none else some fs

/-! ## Calls -/

def emptyFs : RamFs := ⟨ramfsMagic, 0, fun _ => .zero⟩

/-- `initialize`. -/
def ramfsInitialize (state : StatePointer) (stateSize : UInt64) : RamFs × Status :=
  if state ≠ .aligned ∨ stateSize < stateBytes then (fs, .invalid) else (emptyFs, .ok)

/-- Fill a slot. -/
def storeFile (slot : Fin 16) (path data : List UInt8) : RamFs :=
  { fs with
    fileCount := if (fs.files slot).used = 0 then fs.fileCount + 1 else fs.fileCount
    files := update fs.files slot
      { used := 1
        pathLength := UInt8.ofNat path.length
        dataLength := UInt16.ofNat data.length
        path := fun i => path.getD i 0
        data := fun i => data.getD i 0 } }

/-- The slot that holds a path. -/
def findFile (path : List UInt8) : Option (Fin 16) :=
  firstSlot fun i => pathMatches (fs.files i) path

/-- The slot a write goes to: the one that holds the path, else the first unused one. -/
def writeSlot (path : List UInt8) : Option (Fin 16) :=
  match findFile fs path with
  | some existing => some existing
  | none => firstSlot fun i => (fs.files i).used = 0

def writeFile (state : StatePointer) (pathPointer : Pointer) (pathLength : UInt64)
    (dataPointer : Pointer) (dataLength : UInt64) : RamFs × Status :=
  match checkedInput pathPointer pathLength pathCapacity with
  | none => (fs, .invalid)
  | some path =>
    match checkedInput dataPointer dataLength dataCapacity with
    | none => (fs, .noSpace)
    | some data =>
      if validPath path = false then (fs, .invalid)
      else
        match stateRef fs state with
        | none => (fs, .invalid)
        | some fs =>
          match writeSlot fs path with
          | none => (fs, .noSpace)
          | some slot => (storeFile fs slot path data, .ok)

/-- What `read_file` answers and stores through its output pointers. -/
structure Reading where
  status : Status
  outputLength : Option UInt64
  output : Option (List UInt8)
  deriving DecidableEq

/-- `output` and `outputLength` say whether the output pointers are non-null. -/
def readFile (state : StatePointer) (pathPointer : Pointer) (pathLength : UInt64)
    (output : Bool) (outputCapacity : UInt64) (outputLength : Bool) : Reading :=
  match checkedInput pathPointer pathLength pathCapacity with
  | none => ⟨.invalid, none, none⟩
  | some path =>
    if validPath path = false ∨ outputLength = false then ⟨.invalid, none, none⟩
    else
      match stateRef fs state with
      | none => ⟨.invalid, none, none⟩
      | some fs =>
        match findFile fs path with
        | none => ⟨.notFound, none, none⟩
        | some slot =>
          let entry := fs.files slot
          let length := entry.dataLength.toUInt64
          if outputCapacity < length then ⟨.bufferTooSmall, some length, none⟩
          else if length ≠ 0 then
            if output = false then ⟨.invalid, some length, none⟩
            else ⟨.ok, some length, some entry.dataBytes⟩
          else ⟨.ok, some length, none⟩

/-- What `entry_at` answers and stores through its output pointers. -/
structure Listing where
  status : Status
  pathLength : Option UInt64
  dataLength : Option UInt64
  path : Option (List UInt8)
  deriving DecidableEq

/-- The loop of `entry_at` over the slots that are left. -/
def entryScan (fs : RamFs) (requested : UInt64) : List (Fin 16) → UInt64 → Option (Fin 16)
  | [], _ => none
  | index :: rest, ordinal =>
    if (fs.files index).used ≠ 0 then
      if ordinal = requested then some index else entryScan fs requested rest (ordinal + 1)
    else entryScan fs requested rest ordinal

def entryAt (fs : RamFs) (state : StatePointer) (requested : UInt64) (pathOutput : Bool)
    (pathCapacity : UInt64) (pathLength dataLength : Bool) : Listing :=
  if pathLength = false ∨ dataLength = false then ⟨.invalid, none, none, none⟩
  else
    match stateRef fs state with
    | none => ⟨.invalid, none, none, none⟩
    | some fs =>
      match entryScan fs requested (List.finRange 16) 0 with
      | none => ⟨.notFound, none, none, none⟩
      | some index =>
        let entry := fs.files index
        let length := entry.pathLength.toUInt64
        let size := entry.dataLength.toUInt64
        if pathCapacity < length then ⟨.bufferTooSmall, some length, some size, none⟩
        else if length ≠ 0 then
          if pathOutput = false then ⟨.invalid, some length, some size, none⟩
          else ⟨.ok, some length, some size, some entry.pathBytes⟩
        else ⟨.ok, some length, some size, none⟩

/-- Clear a slot. -/
def clearFile (fs : RamFs) (slot : Fin 16) : RamFs :=
  { fs with
    fileCount := fs.fileCount - 1
    files := update fs.files slot .zero }

def removeFile (fs : RamFs) (state : StatePointer) (pathPointer : Pointer) (pathLength : UInt64) :
    RamFs × Status :=
  match checkedInput pathPointer pathLength pathCapacity with
  | none => (fs, .invalid)
  | some path =>
    if validPath path = false then (fs, .invalid)
    else
      match stateRef fs state with
      | none => (fs, .invalid)
      | some fs =>
        match findFile fs path with
        | none => (fs, .notFound)
        | some slot => (clearFile fs slot, .ok)

/-! ## The invariant -/

/-- A slot is in use. -/
def RamFs.live (fs : RamFs) (slot : Fin 16) : Bool := (fs.files slot).used ≠ 0

/-- What holds between calls: the state is valid and paths are unique. -/
structure Ready (fs : RamFs) : Prop where
  magic : fs.magic = ramfsMagic
  valid : validFilesystem fs = true
  unique : ∀ i j, fs.live i = true → fs.live j = true →
    (fs.files i).pathBytes = (fs.files j).pathBytes → i = j

section Ready

variable {fs : RamFs}

theorem Ready.stateRef (h : Ready fs) : stateRef fs .aligned = some fs := by
  simp [Ramfs.stateRef, h.magic, h.valid]

theorem Ready.entry_valid (h : Ready fs) (i : Fin 16) : entryValid (fs.files i) = true := by
  have := h.valid
  unfold validFilesystem at this
  rw [decide_eq_true_iff] at this
  exact this.2.1 i

theorem Ready.live_count (h : Ready fs) : slotCount fs.live = fs.fileCount.toNat := by
  have := h.valid
  unfold validFilesystem at this
  rw [decide_eq_true_iff] at this
  exact this.2.2

theorem Ready.live_entry (h : Ready fs) {i : Fin 16} (hi : fs.live i = true) :
    (fs.files i).pathLength.toNat ≤ pathCapacity ∧ (fs.files i).dataLength.toNat ≤ dataCapacity ∧
      validPath (fs.files i).pathBytes = true := by
  have hv := h.entry_valid i
  have hu : (fs.files i).used ≠ 0 := by simpa [RamFs.live] using hi
  unfold entryValid at hv
  rw [if_pos hu, decide_eq_true_iff] at hv
  exact hv

end Ready

/-- A slot matches a path when it is used and stores that path. -/
theorem pathMatches_iff (path : List UInt8) :
    pathMatches entry path = true ↔
      entry.used ≠ 0 ∧ entry.pathLength.toNat ≤ pathCapacity ∧ entry.pathBytes = path := by
  unfold pathMatches
  constructor
  · intro h
    dsimp only at h
    split at h
    · cases h
    · next hc =>
      rw [not_or, not_or, not_not] at hc
      obtain ⟨hu, hcap, hlen⟩ := hc
      refine ⟨hu, by omega, ?_⟩
      rw [List.all_eq_true] at h
      apply List.ext_getElem
      · simp [FileEntry.pathBytes, hlen]
      · intro i h1 h2
        have := h i (List.mem_range.mpr (by simpa [FileEntry.pathBytes] using h1))
        simpa [FileEntry.pathBytes, bytesOf, inputAt, List.getD_eq_getElem?_getD, h2] using this
  · rintro ⟨hu, hcap, rfl⟩
    dsimp only
    rw [if_neg]
    · rw [List.all_eq_true]
      intro i hi
      have hlt := List.mem_range.mp hi
      simp [FileEntry.pathBytes, bytesOf, inputAt, List.getD_eq_getElem?_getD, hlt]
    · simp only [FileEntry.pathBytes, bytesOf_length]
      rintro (h | h | h)
      · exact hu h
      · omega
      · exact h rfl

variable {fs : RamFs}

theorem Ready.pathMatches_iff (h : Ready fs) (i : Fin 16) (path : List UInt8) :
    pathMatches (fs.files i) path = true ↔ fs.live i = true ∧ (fs.files i).pathBytes = path := by
  have hlive : fs.live i = true ↔ (fs.files i).used ≠ 0 := by simp [RamFs.live]
  rw [Ramfs.pathMatches_iff, hlive]
  constructor
  · rintro ⟨hu, _, hp⟩
    exact ⟨hu, hp⟩
  · rintro ⟨hu, hp⟩
    exact ⟨hu, (h.live_entry (hlive.mpr hu)).1, hp⟩

/-- The slot found is the slot that stores the path. -/
theorem Ready.findFile_eq_some (h : Ready fs) (path : List UInt8) (i : Fin 16) :
    findFile fs path = some i ↔ fs.live i = true ∧ (fs.files i).pathBytes = path := by
  constructor
  · intro hf
    exact (h.pathMatches_iff i path).mp (firstSlot_true hf)
  · rintro ⟨hi, hp⟩
    obtain ⟨j, hj⟩ := firstSlot_isSome (p := fun i => pathMatches (fs.files i) path)
      ((h.pathMatches_iff i path).mpr ⟨hi, hp⟩)
    have hjm := (h.pathMatches_iff j path).mp
      (firstSlot_true (p := fun i => pathMatches (fs.files i) path) hj)
    have heq := h.unique j i hjm.1 hi (hjm.2.trans hp.symm)
    rw [heq] at hj
    exact hj

theorem Ready.findFile_eq_none (h : Ready fs) (path : List UInt8) :
    findFile fs path = none ↔ ∀ i, fs.live i = true → (fs.files i).pathBytes ≠ path := by
  constructor
  · intro hf i hi hp
    rw [(h.findFile_eq_some path i).mpr ⟨hi, hp⟩] at hf
    cases hf
  · intro hno
    cases hf : findFile fs path with
    | none => rfl
    | some i =>
      have := (h.findFile_eq_some path i).mp hf
      exact absurd this.2 (hno i this.1)

/-! ## Filling a slot -/

variable {j : Fin 16}

section Store

variable {fs : RamFs} {slot : Fin 16} {path data : List UInt8}

theorem storeFile_same (fs : RamFs) (slot : Fin 16) (hpath : path.length ≤ pathCapacity)
    (hdata : data.length ≤ dataCapacity) :
    ((storeFile fs slot path data).files slot).pathBytes = path ∧
      ((storeFile fs slot path data).files slot).dataBytes = data ∧
      ((storeFile fs slot path data).files slot).dataLength.toNat = data.length := by
  unfold pathCapacity at hpath
  unfold dataCapacity at hdata
  have hp : (UInt8.ofNat path.length).toNat = path.length := by
    rw [UInt8.toNat_ofNat']
    omega
  have hd : (UInt16.ofNat data.length).toNat = data.length := by
    rw [UInt16.toNat_ofNat']
    omega
  simp only [storeFile, update_self, FileEntry.pathBytes, FileEntry.dataBytes]
  rw [hp, hd, bytesOf_getD, bytesOf_getD]
  exact ⟨rfl, rfl, rfl⟩

theorem storeFile_other (hj : j ≠ slot) :
    (storeFile fs slot path data).files j = fs.files j := update_of_ne hj ..

theorem storeFile_live_same : (storeFile fs slot path data).live slot = true := by
  simp [storeFile, RamFs.live]

theorem storeFile_live_other (hj : j ≠ slot) :
    (storeFile fs slot path data).live j = fs.live j := by
  unfold RamFs.live
  rw [storeFile_other hj]

theorem storeFile_fileCount (h : Ready fs) (slot : Fin 16) (path data : List UInt8) :
    slotCount (storeFile fs slot path data).live =
      (storeFile fs slot path data).fileCount.toNat := by
  have hcount := h.live_count
  cases hlive : fs.live slot with
  | true =>
    have hu : (fs.files slot).used ≠ 0 := by simpa [RamFs.live] using hlive
    have hsame : ∀ j, (storeFile fs slot path data).live j = fs.live j := by
      intro j
      by_cases hj : j = slot
      · rw [hj, storeFile_live_same, hlive]
      · exact storeFile_live_other hj
    rw [slotCount_congr hsame, hcount]
    simp [storeFile, hu]
  | false =>
    have hu : (fs.files slot).used = 0 := by simpa [RamFs.live] using hlive
    have hadd : slotCount (storeFile fs slot path data).live = slotCount fs.live + 1 :=
      slotCount_of_update hlive storeFile_live_same fun j hj => storeFile_live_other hj
    have hle := slotCount_le (storeFile fs slot path data).live
    rw [hadd, hcount]
    rw [hadd, hcount] at hle
    simp only [storeFile, hu, if_true]
    rw [UInt32.toNat_add, show (1 : UInt32).toNat = 1 from rfl]
    omega

theorem entryValid_store (hpath : path.length ≤ pathCapacity) (hdata : data.length ≤ dataCapacity)
    (hvalid : validPath path = true) :
    entryValid ((storeFile fs slot path data).files slot) = true := by
  obtain ⟨hp, _, hd⟩ := storeFile_same fs slot hpath hdata
  have hu : ((storeFile fs slot path data).files slot).used ≠ 0 := by
    simp [storeFile]
  have hlen : ((storeFile fs slot path data).files slot).pathLength.toNat = path.length := by
    have := congrArg List.length hp
    simpa [FileEntry.pathBytes] using this
  unfold entryValid
  rw [if_pos hu, decide_eq_true_iff, hp, hd, hlen]
  exact ⟨hpath, hdata, hvalid⟩

/-- A write to the slot of its path, or to any slot when no slot has the path. -/
theorem Ready.store (h : Ready fs) (hpath : path.length ≤ pathCapacity)
    (hdata : data.length ≤ dataCapacity) (hvalid : validPath path = true)
    (hslot : ∀ j, j ≠ slot → fs.live j = true → (fs.files j).pathBytes ≠ path) :
    Ready (storeFile fs slot path data) := by
  have hsame := (storeFile_same fs slot hpath hdata).1
  refine ⟨h.magic, ?_, ?_⟩
  · unfold validFilesystem
    rw [decide_eq_true_iff]
    have hcount := storeFile_fileCount h slot path data
    refine ⟨?_, ?_, hcount⟩
    · rw [← hcount]
      exact slotCount_le _
    · intro j
      by_cases hj : j = slot
      · rw [hj]
        exact entryValid_store hpath hdata hvalid
      · rw [storeFile_other hj]
        exact h.entry_valid j
  · intro i j hi hj heq
    by_cases hi' : i = slot
    · by_cases hj' : j = slot
      · rw [hi', hj']
      · rw [storeFile_live_other hj'] at hj
        rw [hi', hsame, storeFile_other hj'] at heq
        exact absurd heq.symm (hslot j hj' hj)
    · rw [storeFile_live_other hi'] at hi
      rw [storeFile_other hi'] at heq
      by_cases hj' : j = slot
      · rw [hj', hsame] at heq
        exact absurd heq (hslot i hi' hi)
      · rw [storeFile_live_other hj'] at hj
        rw [storeFile_other hj'] at heq
        exact h.unique i j hi hj heq

end Store

/-! ## Clearing a slot -/

section Clear

variable {fs : RamFs} {slot : Fin 16}

theorem clearFile_other (hj : j ≠ slot) :
    (clearFile fs slot).files j = fs.files j := update_of_ne hj ..

theorem clearFile_live_same : (clearFile fs slot).live slot = false := by
  simp [clearFile, RamFs.live, FileEntry.zero]

theorem clearFile_live_other (hj : j ≠ slot) : (clearFile fs slot).live j = fs.live j := by
  unfold RamFs.live
  rw [clearFile_other hj]

theorem Ready.clear (h : Ready fs) (hlive : fs.live slot = true) : Ready (clearFile fs slot) := by
  have hcount : slotCount (clearFile fs slot).live = (clearFile fs slot).fileCount.toNat := by
    have hadd : slotCount fs.live = slotCount (clearFile fs slot).live + 1 :=
      slotCount_of_update clearFile_live_same hlive fun j hj => (clearFile_live_other hj).symm
    have hc := h.live_count
    have hlt := fs.fileCount.toNat_lt
    simp only [clearFile]
    rw [UInt32.toNat_sub, show (1 : UInt32).toNat = 1 from rfl]
    simp only [clearFile] at hadd
    omega
  refine ⟨h.magic, ?_, ?_⟩
  · unfold validFilesystem
    rw [decide_eq_true_iff]
    refine ⟨?_, ?_, hcount⟩
    · rw [← hcount]
      exact slotCount_le _
    · intro j
      by_cases hj : j = slot
      · rw [hj]
        simp [clearFile, entryValid, FileEntry.zero]
      · rw [clearFile_other hj]
        exact h.entry_valid j
  · intro i j hi hj heq
    have hne : ∀ k, (clearFile fs slot).live k = true → k ≠ slot := by
      intro k hk hks
      rw [hks, clearFile_live_same] at hk
      cases hk
    rw [clearFile_other (hne i hi), clearFile_other (hne j hj)] at heq
    rw [clearFile_live_other (hne i hi)] at hi
    rw [clearFile_live_other (hne j hj)] at hj
    exact h.unique i j hi hj heq

end Clear

theorem emptyFs_ready : Ready emptyFs := by
  refine ⟨rfl, ?_, ?_⟩
  · unfold validFilesystem
    rw [decide_eq_true_iff]
    refine ⟨by decide, ?_, ?_⟩
    · intro i
      simp [emptyFs, entryValid, FileEntry.zero]
    · simp [emptyFs, slotCount, FileEntry.zero]
  · intro i j hi
    simp [emptyFs, RamFs.live, FileEntry.zero] at hi

end ArgusOs.Ramfs
