/-
  What an accepted image is: the guarantees of `elf_validate_user_image` apart from the page
  budget.

  The overlap test adds start and size without a check of its own. It is right because both
  ranges lie below `userMax` by then: the new one by the address check, the earlier ones by
  the invariant of the loop (`ScanSound`). The bounds are those `load_elf_app` passes or any
  others with a page-aligned upper bound and a window below `2 ^ 32` bytes.
-/
import ArgusOs.Elf.Image

namespace ArgusOs.Elf

open Lib

variable {entry : UInt64} {program : ProgramHeader} {done : List ProgramHeader} {scan : ElfScan}

/-- Where the last page of a segment ends. -/
def ElfSegment.pagesEnd (s : ElfSegment) : Nat :=
  s.virtualAddress.toNat + (s.memorySize.toNat + 4095) / 4096 * 4096

/-- The page-rounded ranges do not meet. -/
def ElfSegment.Apart (s t : ElfSegment) : Prop :=
  s.pagesEnd ≤ t.virtualAddress.toNat ∨ t.pagesEnd ≤ s.virtualAddress.toNat

theorem ElfSegment.Apart.symm {s t : ElfSegment} (h : s.Apart t) : t.Apart s := Or.symm h

/-- A segment as the loader may rely on it. -/
structure SegmentSound (size userMin userMax : UInt64) (s : ElfSegment) : Prop where
  memory_ne : s.memorySize ≠ 0
  file_le : s.fileSize.toNat ≤ s.memorySize.toNat
  readable : s.flags &&& elfFlagRead ≠ 0
  not_write_execute : s.flags &&& elfFlagWrite = 0 ∨ s.flags &&& elfFlagExecute = 0
  offset_aligned : s.fileOffset.toNat % 4096 = 0
  address_aligned : s.virtualAddress.toNat % 4096 = 0
  file_range : s.fileOffset.toNat + s.fileSize.toNat ≤ size.toNat
  address_low : userMin.toNat ≤ s.virtualAddress.toNat
  address_high : s.pagesEnd ≤ userMax.toNat
  pages : s.pageCount.toNat = (s.memorySize.toNat + 4095) / 4096

/-- The entry point lies in the part of an executable segment that the file backs. -/
def EntryIn (entry : UInt64) (s : ElfSegment) : Prop :=
  s.flags &&& elfFlagExecute ≠ 0 ∧ s.virtualAddress.toNat ≤ entry.toNat ∧
    entry.toNat < s.virtualAddress.toNat + s.fileSize.toNat

section Scan

variable {size userMin userMax : UInt64}

theorem LoadOk.segmentSound (h : LoadOk size userMin userMax program)
    (hwin : userMax.toNat < userMin.toNat + 2 ^ 32) (haligned : userMax.toNat % 4096 = 0) :
    SegmentSound size userMin userMax (segmentOf program) where
  memory_ne := h.memory_ne
  file_le := h.file_le
  readable := h.readable
  not_write_execute := h.not_write_execute
  offset_aligned := h.offset_aligned
  address_aligned := h.address_aligned
  file_range := h.file_range
  address_low := h.address_low
  address_high := by
    -- start and upper bound are page-aligned, so rounding up stays below the bound
    have hstart := h.address_aligned
    have hhigh := h.address_high
    unfold ElfSegment.pagesEnd segmentOf
    dsimp only
    omega
  pages := (h.pageCount hwin).1

/-- Where neither sum wraps around, the overlap test decides whether the ranges meet. -/
theorem rangesOverlap_eq_false {firstStart firstSize secondStart secondSize : UInt64}
    (hfirst : firstStart.toNat + firstSize.toNat < 2 ^ 64)
    (hsecond : secondStart.toNat + secondSize.toNat < 2 ^ 64)
    (h : rangesOverlap firstStart firstSize secondStart secondSize = false) :
    firstStart.toNat + firstSize.toNat ≤ secondStart.toNat ∨
      secondStart.toNat + secondSize.toNat ≤ firstStart.toNat := by
  simp only [rangesOverlap, Bool.and_eq_false_iff, decide_eq_false_iff_not, UInt64.not_lt,
    UInt64.le_iff_toNat_le, UInt64.toNat_add, Nat.mod_eq_of_lt hfirst,
    Nat.mod_eq_of_lt hsecond] at h
  exact h.symm

/-- A new segment that passes the overlap test against an earlier one is apart from it. -/
theorem LoadOk.apart (h : LoadOk size userMin userMax program)
    (hwin : userMax.toNat < userMin.toNat + 2 ^ 32) (haligned : userMax.toNat % 4096 = 0)
    (hround : program.memorySize.toNat + 4095 < 2 ^ 64) {other : ElfSegment}
    (hother : SegmentSound size userMin userMax other)
    (htest : rangesOverlap program.virtualAddress (roundedSize program) other.virtualAddress
      (other.pageCount.toUInt64 * elfPageSize) = false) : (segmentOf program).Apart other := by
  have hmax := userMax.toNat_lt
  have hends := (h.segmentSound hwin haligned).address_high
  have hothers := hother.address_high
  have hpages := hother.pages
  unfold ElfSegment.pagesEnd at hends hothers
  have hsize : (roundedSize program).toNat = (program.memorySize.toNat + 4095) / 4096 * 4096 :=
    roundedSize_toNat hround
  have hothersize : (other.pageCount.toUInt64 * elfPageSize).toNat =
      (other.memorySize.toNat + 4095) / 4096 * 4096 := by
    have hp : elfPageSize.toNat = 4096 := rfl
    rw [UInt64.toNat_mul, UInt32.toNat_toUInt64, hp, hpages, Nat.mod_eq_of_lt (by omega)]
  have hends' : program.virtualAddress.toNat + (roundedSize program).toNat < 2 ^ 64 := by
    rw [hsize]
    show (segmentOf program).virtualAddress.toNat +
      ((segmentOf program).memorySize.toNat + 4095) / 4096 * 4096 < 2 ^ 64
    omega
  have hcases := rangesOverlap_eq_false hends' (by rw [hothersize]; omega) htest
  rw [hsize, hothersize] at hcases
  exact hcases

/-- What the loop has established about segments, stack headers and the entry point. -/
structure ScanSound (size userMin userMax entry : UInt64) (done : List ProgramHeader)
    (scan : ElfScan) : Prop where
  segments : ∀ s ∈ scan.segments, SegmentSound size userMin userMax s
  apart : scan.segments.Pairwise ElfSegment.Apart
  kinds : ∀ program ∈ done, program.type = elfProgramLoad ∨ program.type = elfProgramGnuStack
  stackCount : (done.filter fun program => program.type = elfProgramGnuStack).length =
    if scan.stackSeen then 1 else 0
  stackFlags : ∀ program ∈ done, program.type = elfProgramGnuStack →
    program.flags = elfFlagRead ||| elfFlagWrite
  entry : scan.entryIsExecutable = true → ∃ s ∈ scan.segments, EntryIn entry s

theorem scanSound_nil (entry : UInt64) :
    ScanSound size userMin userMax entry [] ⟨[], 0, false, false⟩ where
  segments := fun _ hs => by cases hs
  apart := List.Pairwise.nil
  kinds := fun _ hp => by cases hp
  stackCount := rfl
  stackFlags := fun _ hp => by cases hp
  entry := fun h => by cases h

/-- The stack header: the first of its kind, with the flags it must have. -/
theorem ScanSound.stack (h : ScanSound size userMin userMax entry done scan)
    (htype : program.type = elfProgramGnuStack) (hok : stackRejected scan program = false) :
    ScanSound size userMin userMax entry (done ++ [program]) { scan with stackSeen := true } := by
  simp only [stackRejected, Bool.or_eq_false_iff, decide_eq_false_iff_not, not_not] at hok
  have hfirst : scan.stackSeen = false := hok.1.1.1.1.1.1
  have hflags : program.flags = elfFlagRead ||| elfFlagWrite := hok.1.1.1.1.1.2
  refine ⟨h.segments, h.apart, ?_, ?_, ?_, h.entry⟩
  · intro p hp
    rcases List.mem_append.mp hp with hp | hp
    · exact h.kinds p hp
    · rw [List.mem_singleton.mp hp]
      exact Or.inr htype
  · have hstacks := h.stackCount
    rw [hfirst] at hstacks
    simp [List.filter_append, htype, hstacks]
  · intro p hp hpt
    rcases List.mem_append.mp hp with hp | hp
    · exact h.stackFlags p hp hpt
    · rw [List.mem_singleton.mp hp]
      exact hflags

theorem ScanSound.load (h : ScanSound size userMin userMax entry done scan)
    (hwin : userMax.toNat < userMin.toNat + 2 ^ 32) (haligned : userMax.toNat % 4096 = 0)
    (htype : program.type = elfProgramLoad) (hok : LoadOk size userMin userMax program)
    (hround : program.memorySize.toNat + 4095 < 2 ^ 64)
    (htests : ∀ other ∈ scan.segments, rangesOverlap program.virtualAddress (roundedSize program)
      other.virtualAddress (other.pageCount.toUInt64 * elfPageSize) = false) :
    ScanSound size userMin userMax entry (done ++ [program]) (addSegment entry scan program) := by
  have hsound := hok.segmentSound hwin haligned
  have hne : ¬program.type = elfProgramGnuStack := by
    rw [htype]
    decide
  refine ⟨?_, ?_, ?_, ?_, ?_, ?_⟩
  · exact List.forall_mem_append.mpr ⟨h.segments, List.forall_mem_singleton.mpr hsound⟩
  · refine List.pairwise_append.mpr ⟨h.apart, List.pairwise_singleton _ _, ?_⟩
    intro other hother s hs
    rw [List.mem_singleton.mp hs]
    exact (hok.apart hwin haligned hround (h.segments other hother) (htests other hother)).symm
  · intro p hp
    rcases List.mem_append.mp hp with hp | hp
    · exact h.kinds p hp
    · rw [List.mem_singleton.mp hp]
      exact Or.inl htype
  · have hfilter : (done ++ [program]).filter (fun program => program.type = elfProgramGnuStack) =
        done.filter fun program => program.type = elfProgramGnuStack := by
      simp [List.filter_append, hne]
    rw [hfilter]
    exact h.stackCount
  · intro p hp hpt
    rcases List.mem_append.mp hp with hp | hp
    · exact h.stackFlags p hp hpt
    · rw [List.mem_singleton.mp hp] at hpt
      exact absurd hpt hne
  · intro hentry
    simp only [addSegment, Bool.or_eq_true, Bool.and_eq_true, decide_eq_true_eq] at hentry
    rcases hentry with hbefore | ⟨⟨hexec, hlow⟩, hhigh⟩
    · obtain ⟨s, hs, hin⟩ := h.entry hbefore
      exact ⟨s, List.mem_append_left _ hs, hin⟩
    · refine ⟨segmentOf program, List.mem_append_right _ (List.mem_singleton_self _), hexec,
        UInt64.le_iff_toNat_le.mp hlow, ?_⟩
      have hend := hsound.address_high
      have hmax := userMax.toNat_lt
      have hfile := hok.file_le
      have hhi := hok.address_high
      rw [UInt64.lt_iff_toNat_lt, UInt64.toNat_add, Nat.mod_eq_of_lt (by omega)] at hhigh
      exact hhigh

theorem scanSound_run (hwin : userMax.toNat < userMin.toNat + 2 ^ 32)
    (haligned : userMax.toNat % 4096 = 0) {programs : List ProgramHeader} {scan' : ElfScan}
    (h : ScanSound size userMin userMax entry done scan)
    (hrun : programs.foldlM (scanProgram size userMin userMax entry) scan = some scan') :
    ScanSound size userMin userMax entry (done ++ programs) scan' := by
  refine foldlM_invariant (ScanSound size userMin userMax entry) ?_ h hrun
  intro done scan program mid h hmid
  rcases scanProgram_cases hmid with
    ⟨htype, hok, rfl⟩ | ⟨htype, -, hok, hround, -, -, htests, rfl⟩
  · exact h.stack htype hok
  · exact h.load hwin haligned htype hok hround htests

/-- An accepted image: the header table lies in the byte string and holds the load headers of
    the segments and one stack header; the segments are sound and apart; the entry point is in
    an executable one. -/
structure ImageSound (bytes : Mem) (size userMin userMax : UInt64) (image : ElfImage) : Prop where
  table : (elfHeader bytes).programHeaderOffset.toNat +
    (elfHeader bytes).programHeaderCount.toNat * 56 ≤ size.toNat
  loads : image.segments =
    ((programHeaders bytes).filter fun program => program.type = elfProgramLoad).map segmentOf
  count : 1 ≤ image.segments.length ∧ image.segments.length ≤ argusElfMaxSegments
  kinds : ∀ program ∈ programHeaders bytes,
    program.type = elfProgramLoad ∨ program.type = elfProgramGnuStack
  stack : ∃ program, ((programHeaders bytes).filter fun program =>
    program.type = elfProgramGnuStack) = [program] ∧ program.flags = elfFlagRead ||| elfFlagWrite
  segments : ∀ s ∈ image.segments, SegmentSound size userMin userMax s
  apart : image.segments.Pairwise ElfSegment.Apart
  entry : ∃ s ∈ image.segments, EntryIn image.entry s

theorem elfValidateUserImage_sound {bytes : Mem} {image : ElfImage}
    (hwin : userMax.toNat < userMin.toNat + 2 ^ 32) (haligned : userMax.toNat % 4096 = 0)
    (h : elfValidateUserImage bytes size userMin userMax = some image) :
    ImageSound bytes size userMin userMax image := by
  unfold elfValidateUserImage at h
  dsimp only at h
  split at h
  · cases h
  split at h
  · cases h
  split at h
  · cases h
  rename_i htable
  split at h
  · cases h
  rename_i scan hscan
  split at h
  · cases h
  rename_i hdone
  obtain rfl := Option.some.inj h
  rw [not_or, not_or, Bool.not_eq_false, Bool.not_eq_false] at hdone
  obtain ⟨hsegments, hentry, hstack⟩ := hdone
  have hinv := scanInv_run hwin scanInv_nil hscan
  have hsound := scanSound_run hwin haligned (scanSound_nil _) hscan
  rw [List.nil_append] at hinv hsound
  refine ⟨?_, hinv.segments, ⟨?_, hinv.length_le⟩, hsound.kinds, ?_, hsound.segments, hsound.apart,
    hsound.entry hentry⟩
  · -- at most `2 ^ 16` headers of 56 bytes: neither product nor checked sum wraps around
    rw [not_or, Bool.not_eq_true, addOverflows_eq_false, UInt64.not_lt, UInt64.le_iff_toNat_le]
      at htable
    have hcount := (elfHeader bytes).programHeaderCount.toNat_lt
    have hmul : ((elfHeader bytes).programHeaderCount.toUInt64 * 56).toNat =
        (elfHeader bytes).programHeaderCount.toNat * 56 := by
      rw [UInt64.toNat_mul, UInt16.toNat_toUInt64, show (56 : UInt64).toNat = 56 from rfl,
        Nat.mod_eq_of_lt (by omega)]
    rw [UInt64.toNat_add, Nat.mod_eq_of_lt htable.1, hmul] at htable
    exact htable.2
  · exact List.length_pos_iff.mpr hsegments
  · have hone := hsound.stackCount
    rw [hstack, if_pos rfl] at hone
    obtain ⟨program, hprogram⟩ := List.length_eq_one_iff.mp hone
    refine ⟨program, hprogram, ?_⟩
    have hmem : program ∈ (programHeaders bytes).filter fun program =>
        program.type = elfProgramGnuStack := by
      rw [hprogram]
      exact List.mem_singleton_self _
    rw [List.mem_filter, decide_eq_true_eq] at hmem
    exact hsound.stackFlags program hmem.1 hmem.2

end Scan

end ArgusOs.Elf
