/-
  ELF validation: `elf_loader.c`.

  `elf_validate_user_image` reads an ELF64 header and its program headers out of an
  untrusted byte string and either rejects it or fills an `argus_elf_image_t`. The headers
  are little-endian packed structures; a field is read at its offset. Only the fields the
  validation looks at are kept (not the section header fields).

  A byte string is a function with a length, so the null checks have no counterpart. The
  array of segments with its count is the list of its filled entries; `total_pages` and
  `page_count` stay 32-bit words, since the page budget is checked in 32-bit arithmetic.
-/
import ArgusOs.Lib.Outcome
import ArgusOs.Lib.Word
import ArgusOs.Lib.Bytes

namespace ArgusOs.Elf

open Lib

variable {entry : UInt64}

def argusElfMaxSegments : Nat := 8
def argusElfMaxImagePages : UInt32 := 16

def elfProgramLoad : UInt32 := 1
def elfProgramGnuStack : UInt32 := 0x6474E551
def elfFlagExecute : UInt32 := 1
def elfFlagWrite : UInt32 := 2
def elfFlagRead : UInt32 := 4
def elfPageSize : UInt64 := 4096

structure ElfHeader where
  identification : List UInt8
  type : UInt16
  machine : UInt16
  version : UInt32
  entry : UInt64
  programHeaderOffset : UInt64
  flags : UInt32
  headerSize : UInt16
  programHeaderSize : UInt16
  programHeaderCount : UInt16

structure ProgramHeader where
  type : UInt32
  flags : UInt32
  offset : UInt64
  virtualAddress : UInt64
  physicalAddress : UInt64
  fileSize : UInt64
  memorySize : UInt64
  alignment : UInt64

variable {program : ProgramHeader} {done : List ProgramHeader} (bytes : Mem)

def field16 (a : Nat) : UInt16 := UInt16.ofNat (loadLe bytes a 2)
def field32 (a : Nat) : UInt32 := UInt32.ofNat (loadLe bytes a 4)

/-- The `elf64_header_t` at the start of the image. -/
def elfHeader : ElfHeader where
  identification := (List.range 16).map bytes
  type := field16 bytes 16
  machine := field16 bytes 18
  version := field32 bytes 20
  entry := load64 bytes 24
  programHeaderOffset := load64 bytes 32
  flags := field32 bytes 48
  headerSize := field16 bytes 52
  programHeaderSize := field16 bytes 54
  programHeaderCount := field16 bytes 56

/-- The `elf64_program_header_t` at offset `a`. -/
def programHeader (a : Nat) : ProgramHeader where
  type := field32 bytes a
  flags := field32 bytes (a + 4)
  offset := load64 bytes (a + 8)
  virtualAddress := load64 bytes (a + 16)
  physicalAddress := load64 bytes (a + 24)
  fileSize := load64 bytes (a + 32)
  memorySize := load64 bytes (a + 40)
  alignment := load64 bytes (a + 48)

structure ElfSegment where
  fileOffset : UInt64
  fileSize : UInt64
  virtualAddress : UInt64
  memorySize : UInt64
  flags : UInt32
  pageCount : UInt32
  deriving DecidableEq

structure ElfImage where
  entry : UInt64
  totalPages : UInt32
  segments : List ElfSegment
  deriving DecidableEq

/-! ## Validation -/

def addOverflows (left right : UInt64) : Bool := left > 0xFFFFFFFFFFFFFFFF - right

def rangesOverlap (firstStart firstSize secondStart secondSize : UInt64) : Bool :=
  firstStart < secondStart + secondSize && secondStart < firstStart + firstSize

def headerRejected (header : ElfHeader) : Bool :=
  header.identification.take 7 ≠ [0x7F, 0x45, 0x4C, 0x46, 2, 1, 1] ||
  header.type ≠ 2 || header.machine ≠ 62 || header.version ≠ 1 || header.flags ≠ 0 ||
  header.headerSize ≠ 64 || header.programHeaderSize ≠ 56 || header.programHeaderCount = 0 ||
  header.programHeaderCount > 9

/-- What the loop over the program headers carries. -/
structure ElfScan where
  segments : List ElfSegment
  totalPages : UInt32
  entryIsExecutable : Bool
  stackSeen : Bool

variable {scan scan' : ElfScan}

def stackRejected (scan : ElfScan) (program : ProgramHeader) : Bool :=
  scan.stackSeen || program.flags ≠ elfFlagRead ||| elfFlagWrite || program.offset ≠ 0 ||
  program.virtualAddress ≠ 0 || program.physicalAddress ≠ 0 || program.fileSize ≠ 0 ||
  program.memorySize ≠ 0

def loadRejected (size userMin userMax : UInt64) (scan : ElfScan) (program : ProgramHeader) :
    Bool :=
  scan.segments.length = argusElfMaxSegments ||
  program.memorySize = 0 || program.fileSize > program.memorySize ||
  program.flags &&& elfFlagRead = 0 ||
  program.flags &&& ~~~(elfFlagRead ||| elfFlagWrite ||| elfFlagExecute) ≠ 0 ||
  (program.flags &&& elfFlagWrite ≠ 0 && program.flags &&& elfFlagExecute ≠ 0) ||
  program.offset &&& (elfPageSize - 1) ≠ 0 ||
  program.virtualAddress &&& (elfPageSize - 1) ≠ 0 ||
  program.alignment ≠ elfPageSize ||
  addOverflows program.offset program.fileSize ||
  program.offset + program.fileSize > size ||
  addOverflows program.virtualAddress program.memorySize ||
  program.virtualAddress < userMin ||
  program.virtualAddress + program.memorySize > userMax

def roundedSize (program : ProgramHeader) : UInt64 :=
  (program.memorySize + elfPageSize - 1) &&& ~~~(elfPageSize - 1)

def pageCountOf (program : ProgramHeader) : UInt32 := (roundedSize program / elfPageSize).toUInt32

def segmentOf (program : ProgramHeader) : ElfSegment where
  fileOffset := program.offset
  fileSize := program.fileSize
  virtualAddress := program.virtualAddress
  memorySize := program.memorySize
  flags := program.flags
  pageCount := pageCountOf program

/-- The image after one more load segment. -/
def addSegment (entry : UInt64) (scan : ElfScan) (program : ProgramHeader) : ElfScan where
  segments := scan.segments ++ [segmentOf program]
  totalPages := scan.totalPages + pageCountOf program
  entryIsExecutable := scan.entryIsExecutable ||
    (program.flags &&& elfFlagExecute ≠ 0 && entry ≥ program.virtualAddress &&
      entry < program.virtualAddress + program.fileSize)
  stackSeen := scan.stackSeen

/-- One turn of the loop over the program headers. -/
def scanProgram (size userMin userMax entry : UInt64) (scan : ElfScan)
    (program : ProgramHeader) : Option ElfScan :=
  if program.type = elfProgramGnuStack then
    if stackRejected scan program then none else some { scan with stackSeen := true }
  else if program.type ≠ elfProgramLoad then none
  else if loadRejected size userMin userMax scan program then none
  else if addOverflows program.memorySize (elfPageSize - 1) then none
  else if pageCountOf program = 0 ∨
      scan.totalPages > argusElfMaxImagePages - pageCountOf program then none
  else if scan.segments.any fun other =>
      rangesOverlap program.virtualAddress (roundedSize program) other.virtualAddress
        (other.pageCount.toUInt64 * elfPageSize) then none
  else some (addSegment entry scan program)

/-- The program headers of an image, in table order. -/
def programHeaders : List ProgramHeader :=
  (List.range (elfHeader bytes).programHeaderCount.toNat).map fun index =>
    programHeader bytes ((elfHeader bytes).programHeaderOffset.toNat + index * 56)

def elfValidateUserImage (size userMin userMax : UInt64) : Option ElfImage :=
  let header := elfHeader bytes
  if size < 64 ∨ userMin ≥ userMax then none
  else if headerRejected header then none
  else
    let tableSize := header.programHeaderCount.toUInt64 * 56
    if addOverflows header.programHeaderOffset tableSize ∨
        header.programHeaderOffset + tableSize > size then none
    else
      match (programHeaders bytes).foldlM (scanProgram size userMin userMax header.entry)
          ⟨[], 0, false, false⟩ with
      | none => none
      | some scan =>
        if scan.segments = [] ∨ scan.entryIsExecutable = false ∨ scan.stackSeen = false then none
        else some ⟨header.entry, scan.totalPages, scan.segments⟩

/-! ## What a turn of the loop accepts -/

theorem addOverflows_eq_false {left right : UInt64} :
    addOverflows left right = false ↔ left.toNat + right.toNat < 2 ^ 64 := by
  have hl := left.toNat_lt
  have hr := right.toNat_lt
  unfold addOverflows
  rw [decide_eq_false_iff_not, UInt64.not_lt, UInt64.le_iff_toNat_le, toNat_room]
  omega

/-- A load header that passed every check but the page budget and the overlap check. -/
structure LoadOk (size userMin userMax : UInt64) (program : ProgramHeader) : Prop where
  memory_ne : program.memorySize ≠ 0
  file_le : program.fileSize.toNat ≤ program.memorySize.toNat
  readable : program.flags &&& elfFlagRead ≠ 0
  flags_known : program.flags &&& ~~~(elfFlagRead ||| elfFlagWrite ||| elfFlagExecute) = 0
  not_write_execute : program.flags &&& elfFlagWrite = 0 ∨ program.flags &&& elfFlagExecute = 0
  offset_aligned : program.offset.toNat % 4096 = 0
  address_aligned : program.virtualAddress.toNat % 4096 = 0
  file_range : program.offset.toNat + program.fileSize.toNat ≤ size.toNat
  address_low : userMin.toNat ≤ program.virtualAddress.toNat
  address_high : program.virtualAddress.toNat + program.memorySize.toNat ≤ userMax.toNat

theorem and_page_mask {x : UInt64} : x &&& (elfPageSize - 1) = 0 ↔ x.toNat % 4096 = 0 := by
  rw [← UInt64.toNat_inj, toNat_and_low x _ 12 (by decide)]
  rfl

theorem loadRejected_eq_false {size userMin userMax : UInt64}
    (h : loadRejected size userMin userMax scan program = false) :
    scan.segments.length ≠ argusElfMaxSegments ∧ LoadOk size userMin userMax program := by
  simp only [loadRejected, Bool.or_eq_false_iff, decide_eq_false_iff_not, Bool.and_eq_false_iff,
    not_not, and_page_mask, addOverflows_eq_false, UInt64.not_lt, gt_iff_lt] at h
  obtain ⟨⟨⟨⟨⟨⟨⟨⟨⟨⟨⟨⟨⟨h0, h1⟩, h2⟩, h3⟩, h4⟩, h5⟩, h6⟩, h7⟩, -⟩, h9⟩, h10⟩, h11⟩, h12⟩, h13⟩ := h
  have hfile : (program.offset + program.fileSize).toNat =
      program.offset.toNat + program.fileSize.toNat := by
    rw [UInt64.toNat_add, Nat.mod_eq_of_lt h9]
  have haddr : (program.virtualAddress + program.memorySize).toNat =
      program.virtualAddress.toNat + program.memorySize.toNat := by
    rw [UInt64.toNat_add, Nat.mod_eq_of_lt h11]
  rw [UInt64.le_iff_toNat_le] at h2 h10 h12 h13
  rw [hfile] at h10
  rw [haddr] at h13
  exact ⟨h0, h1, h2, h3, h4, h5, h6, h7, h10, h12, h13⟩

/-- The page budget, as the 32-bit subtraction decides it. -/
def WithinBudget (total pageCount : UInt32) : Prop := ¬ total > argusElfMaxImagePages - pageCount

/-- A turn of the loop takes the stack header, once, or one more load segment. -/
theorem scanProgram_cases {size userMin userMax : UInt64}
    (h : scanProgram size userMin userMax entry scan program = some scan') :
    (program.type = elfProgramGnuStack ∧ stackRejected scan program = false ∧
      scan' = { scan with stackSeen := true }) ∨
    (program.type = elfProgramLoad ∧ scan.segments.length ≠ argusElfMaxSegments ∧
      LoadOk size userMin userMax program ∧ program.memorySize.toNat + 4095 < 2 ^ 64 ∧
      pageCountOf program ≠ 0 ∧ WithinBudget scan.totalPages (pageCountOf program) ∧
      (∀ other ∈ scan.segments, rangesOverlap program.virtualAddress (roundedSize program)
        other.virtualAddress (other.pageCount.toUInt64 * elfPageSize) = false) ∧
      scan' = addSegment entry scan program) := by
  unfold scanProgram at h
  split at h
  · next htype =>
    split at h
    · cases h
    · next hok =>
      rw [Option.some.injEq] at h
      exact Or.inl ⟨htype, by simpa using hok, h.symm⟩
  · split at h
    · cases h
    · next htype =>
      split at h
      · cases h
      · next hload =>
        split at h
        · cases h
        · next hround =>
          split at h
          · cases h
          · next hbudget =>
            split at h
            · cases h
            · next hover =>
              rw [Option.some.injEq] at h
              rw [Bool.not_eq_true] at hload hround hover
              rw [not_or] at hbudget
              obtain ⟨hlen, hok⟩ := loadRejected_eq_false hload
              have hr := addOverflows_eq_false.mp hround
              have h4095 : (elfPageSize - 1).toNat = 4095 := by decide
              rw [h4095] at hr
              refine Or.inr ⟨not_not.mp htype, hlen, hok, hr, hbudget.1, hbudget.2, ?_, h.symm⟩
              intro other hm
              rw [List.any_eq_false] at hover
              simpa using hover other hm

/-! ## Page counts -/

theorem roundedSize_toNat (h : program.memorySize.toNat + 4095 < 2 ^ 64) :
    (roundedSize program).toNat = (program.memorySize.toNat + 4095) / 4096 * 4096 := by
  have hsum : (program.memorySize + elfPageSize - 1).toNat = program.memorySize.toNat + 4095 := by
    have hp : elfPageSize.toNat = 4096 := rfl
    have h1 : (1 : UInt64).toNat = 1 := rfl
    rw [UInt64.toNat_sub, UInt64.toNat_add, hp, h1]
    omega
  unfold roundedSize
  rw [toNat_and_field _ _ 12 52 (by decide), hsum]
  omega

theorem pageCountOf_toNat (program : ProgramHeader) (h : program.memorySize.toNat < 2 ^ 40) :
    (pageCountOf program).toNat = (program.memorySize.toNat + 4095) / 4096 := by
  unfold pageCountOf
  rw [UInt64.toNat_toUInt32, UInt64.toNat_div, roundedSize_toNat (by omega)]
  have hp : elfPageSize.toNat = 4096 := rfl
  rw [hp]
  omega

/-- With at most sixteen pages asked for, the 32-bit check is the intended one. -/
theorem withinBudget_of_le {total pageCount : UInt32} (hle : pageCount.toNat ≤ 16)
    (h : WithinBudget total pageCount) : total.toNat + pageCount.toNat ≤ 16 := by
  have hsub : (argusElfMaxImagePages - pageCount).toNat = 16 - pageCount.toNat :=
    UInt32.toNat_sub_of_le _ _ (by rw [UInt32.le_iff_toNat_le]; exact hle)
  unfold WithinBudget at h
  rw [UInt32.not_lt, UInt32.le_iff_toNat_le, hsub] at h
  omega

/-! ## The loop over the program headers -/

/-- What the loop has established after the headers `done`. -/
structure ScanInv (size userMin userMax : UInt64) (done : List ProgramHeader)
    (scan : ElfScan) : Prop where
  segments : scan.segments =
    (done.filter fun program => program.type = elfProgramLoad).map segmentOf
  loads : ∀ program ∈ done, program.type = elfProgramLoad → LoadOk size userMin userMax program
  length_le : scan.segments.length ≤ argusElfMaxSegments
  total : scan.totalPages.toNat = (scan.segments.map fun s => s.pageCount.toNat).sum
  budget : (∀ s ∈ scan.segments, s.pageCount.toNat ≤ 16) → scan.totalPages.toNat ≤ 16

section Scan

variable {size userMin userMax : UInt64}

/-- A load header inside a window below `2 ^ 32` bytes asks for fewer than `2 ^ 21` pages. -/
theorem LoadOk.pageCount (h : LoadOk size userMin userMax program)
    (hwin : userMax.toNat < userMin.toNat + 2 ^ 32) :
    (pageCountOf program).toNat = (program.memorySize.toNat + 4095) / 4096 ∧
      (pageCountOf program).toNat < 2 ^ 21 := by
  have hlow := h.address_low
  have hhigh := h.address_high
  have heq := pageCountOf_toNat program (by omega)
  exact ⟨heq, by omega⟩

theorem ScanInv.pageCount_lt (h : ScanInv size userMin userMax done scan)
    (hwin : userMax.toNat < userMin.toNat + 2 ^ 32) :
    ∀ s ∈ scan.segments, s.pageCount.toNat < 2 ^ 21 := by
  intro s hs
  rw [h.segments, List.mem_map] at hs
  obtain ⟨program, hp, rfl⟩ := hs
  rw [List.mem_filter, decide_eq_true_eq] at hp
  exact ((h.loads program hp.1 hp.2).pageCount hwin).2

theorem sum_le_of_forall_lt {b : Nat} (l : List ElfSegment) (h : ∀ s ∈ l, s.pageCount.toNat < b) :
    (l.map fun s => s.pageCount.toNat).sum ≤ l.length * b := by
  induction l with
  | nil => simp
  | cons s l ih =>
    have h1 := h s List.mem_cons_self
    have h2 := ih fun s' hs' => h s' (List.mem_cons_of_mem s hs')
    rw [List.map_cons, List.sum_cons, List.length_cons, Nat.add_mul]
    omega

theorem scanInv_nil : ScanInv size userMin userMax [] ⟨[], 0, false, false⟩ where
  segments := rfl
  loads := fun _ h => by cases h
  length_le := Nat.zero_le _
  total := rfl
  budget := fun _ => Nat.zero_le _

section

variable (hwin : userMax.toNat < userMin.toNat + 2 ^ 32)

include hwin

theorem scanInv_step (h : ScanInv size userMin userMax done scan)
    (hstep : scanProgram size userMin userMax entry scan program = some scan') :
    ScanInv size userMin userMax (done ++ [program]) scan' := by
  rcases scanProgram_cases hstep with
    ⟨htype, -, rfl⟩ | ⟨htype, hlen, hok, -, -, hbudget, -, rfl⟩
  · have hne : ¬ program.type = elfProgramLoad := by
      rw [htype]
      decide
    refine ⟨?_, ?_, h.length_le, h.total, h.budget⟩
    · simpa [List.filter_append, hne] using h.segments
    · intro p hp hpt
      rw [List.mem_append, List.mem_singleton] at hp
      rcases hp with hp | rfl
      · exact h.loads p hp hpt
      · exact absurd hpt hne
  · have hpc := hok.pageCount hwin
    have hsum := sum_le_of_forall_lt scan.segments (h.pageCount_lt hwin)
    have hle := h.length_le
    unfold argusElfMaxSegments at hlen hle
    have htotal := h.total
    have hadd : (scan.totalPages + pageCountOf program).toNat =
        scan.totalPages.toNat + (pageCountOf program).toNat := by
      rw [UInt32.toNat_add]
      exact Nat.mod_eq_of_lt (by omega)
    refine ⟨?_, ?_, ?_, ?_, ?_⟩
    · simp [addSegment, List.filter_append, htype, h.segments]
    · intro p hp hpt
      rw [List.mem_append, List.mem_singleton] at hp
      rcases hp with hp | rfl
      · exact h.loads p hp hpt
      · exact hok
    · simp only [addSegment, List.length_append, List.length_singleton, argusElfMaxSegments]
      omega
    · simp only [addSegment, List.map_append, List.sum_append, List.map_singleton,
        List.sum_singleton, hadd, htotal, segmentOf]
    · -- a header within sixteen pages keeps the total within sixteen; one beyond is excluded
      intro hall
      have hthis : (pageCountOf program).toNat ≤ 16 :=
        hall (segmentOf program) (by simp [addSegment])
      have := withinBudget_of_le hthis hbudget
      show (scan.totalPages + pageCountOf program).toNat ≤ 16
      omega

theorem scanInv_run {programs : List ProgramHeader} (h : ScanInv size userMin userMax done scan)
    (hrun : programs.foldlM (scanProgram size userMin userMax entry) scan = some scan') :
    ScanInv size userMin userMax (done ++ programs) scan' :=
  foldlM_invariant (ScanInv size userMin userMax) (fun _ _ _ _ h hmid => scanInv_step hwin h hmid) h
    hrun

/-- An accepted image is what the loop computed, with an entry point and a stack header. -/
theorem elfValidateUserImage_some {bytes : Mem} {image : ElfImage}
    (h : elfValidateUserImage bytes size userMin userMax = some image) :
    ∃ scan, ScanInv size userMin userMax (programHeaders bytes) scan ∧
      image = ⟨(elfHeader bytes).entry, scan.totalPages, scan.segments⟩ ∧ scan.segments ≠ [] := by
  unfold elfValidateUserImage at h
  dsimp only at h
  split at h
  · cases h
  · split at h
    · cases h
    · split at h
      · cases h
      · split at h
        · cases h
        · next scan hscan =>
          split at h
          · cases h
          · next hok =>
            rw [not_or] at hok
            rw [Option.some.injEq] at h
            refine ⟨scan, ?_, h.symm, hok.1⟩
            exact scanInv_run hwin scanInv_nil hscan

/-- The total of an accepted image is the sum of its page counts, and it is within the budget
    of sixteen pages exactly when every load header on its own is. -/
theorem elf_total_pages {bytes : Mem} {image : ElfImage}
    (h : elfValidateUserImage bytes size userMin userMax = some image) :
    image.totalPages.toNat = (image.segments.map fun s => s.pageCount.toNat).sum ∧
    (image.totalPages.toNat ≤ 16 ↔ ∀ program ∈ programHeaders bytes,
      program.type = elfProgramLoad → program.memorySize.toNat ≤ 16 * 4096) := by
  obtain ⟨scan, hinv, rfl, -⟩ := elfValidateUserImage_some hwin h
  refine ⟨hinv.total, ?_⟩
  have hmem : ∀ program ∈ programHeaders bytes, program.type = elfProgramLoad →
      segmentOf program ∈ scan.segments := by
    intro program hp ht
    rw [hinv.segments]
    exact List.mem_map_of_mem (List.mem_filter.mpr ⟨hp, by simpa using ht⟩)
  constructor
  · intro hle program hp ht
    have hone : (pageCountOf program).toNat ≤
        (scan.segments.map fun s => s.pageCount.toNat).sum :=
      List.le_sum_of_mem (List.mem_map_of_mem (f := fun s => s.pageCount.toNat)
        (hmem program hp ht))
    have hpc := ((hinv.loads program hp ht).pageCount hwin).1
    have htotal := hinv.total
    dsimp only at hle
    omega
  · intro hall
    apply hinv.budget
    intro s hs
    rw [hinv.segments, List.mem_map] at hs
    obtain ⟨program, hp, rfl⟩ := hs
    rw [List.mem_filter, decide_eq_true_eq] at hp
    have hpc := ((hinv.loads program hp.1 hp.2).pageCount hwin).1
    have := hall program hp.1 hp.2
    show (pageCountOf program).toNat ≤ 16
    omega

end

end Scan

end ArgusOs.Elf
