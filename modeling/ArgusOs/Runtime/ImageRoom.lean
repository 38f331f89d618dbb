/-
  The sixteen places for image pages.

  `elf_validate_user_image` bounds the pages of an image by the budget check

    image->total_pages > ARGUS_ELF_MAX_IMAGE_PAGES - page_count

  in 32-bit arithmetic. A segment of more than sixteen pages makes the right side wrap around,
  and the image is accepted. `load_elf_app` then stores one address a page into
  `image_physical[16]` without a check of its own.
-/
import ArgusOs.Runtime.Loaders

namespace ArgusOs.Runtime

open Lib Memory Capability Ipc Elf

variable {l l' : Loading} {done : Bool}

/-! ## The page loop stays inside the array -/

theorem loadPage_cases (image : List UInt8) (l : Loading) (page : ImagePage) :
    (∃ l', loadPage image l page = .ok (l', false)) ∨
    (∃ l', loadPage image l page = .ok (l', true) ∧
      l'.process.imagePhysical.length = l.process.imagePhysical.length + 1) ∨
    (argusElfImageRoom ≤ l.process.imagePhysical.length ∧
      loadPage image l page = .error l.process.imagePhysical.length) := by
  unfold loadPage
  dsimp only
  split
  · exact Or.inl ⟨_, rfl⟩
  · split
    · next hfull => exact Or.inr (Or.inr ⟨hfull, rfl⟩)
    · split
      · exact Or.inl ⟨_, rfl⟩
      · refine Or.inr (Or.inl ⟨_, rfl, ?_⟩)
        exact List.length_append

theorem loadPages_ne_error (image : List UInt8) {pages : List ImagePage}
    (h : l.process.imagePhysical.length + pages.length ≤ argusElfImageRoom) (index : Nat) :
    loadPages image l pages ≠ .error index := by
  induction pages generalizing l with
  | nil =>
    intro hc
    cases hc
  | cons page pages ih =>
    rw [List.length_cons] at h
    unfold loadPages
    rcases loadPage_cases image l page with ⟨l', heq⟩ | ⟨l', heq, hlen⟩ | ⟨hfull, -⟩
    · rw [heq]
      intro hc
      cases hc
    · rw [heq]
      exact ih (by omega)
    · omega

theorem loadElfApp_ne_error {image : List UInt8} (hsmall : SmallImage image) (kernel : PagingInfo)
    (l : Loading) (pid : UInt64) (appId : UInt32) (index : Nat) :
    loadElfApp kernel l pid appId image ≠ .error index := by
  unfold loadElfApp
  split
  · intro hc
    cases hc
  · cases helf : validateImage image with
    | none =>
      intro hc
      cases hc
    | some elf =>
      dsimp only
      rcases hprep : prepareProcess kernel l pid appId with ⟨l₁, done⟩
      cases done with
      | false =>
        intro hc
        cases hc
      | true =>
        have hroom : l₁.process.imagePhysical.length +
            (elf.segments.flatMap segmentPages).length ≤ argusElfImageRoom := by
          have hnone : l₁.process.imagePhysical = [] :=
            show l₁.process.outline.imagePhysical = [] by
              rw [(prepareProcess_record hprep).2 rfl]; rfl
          rw [hnone, List.length_nil, Nat.zero_add, segmentPages_length helf]
          exact hsmall elf helf
        have hrun := loadPages_ne_error image
          (l := ⟨l₁.phys, l₁.ipc, { l₁.process with codeVirtual := firstSegmentAddress elf }⟩) hroom
        dsimp only
        unfold loadImage
        intro hc
        split at hc
        · next heq => exact hrun _ heq
        · cases hc
        · cases hc

/-- Accepted images keep to the sixteen pages exactly when no load segment alone asks for more. -/
theorem image_pages_fit_iff (image : List UInt8) (elf : ElfImage)
    (h : validateImage image = some elf) :
    (elf.totalPages.toNat = (elf.segments.map fun s => s.pageCount.toNat).sum ∧
      elf.totalPages.toNat ≤ argusElfImageRoom ∧
      ∀ kernel l pid appId index, loadElfApp kernel l pid appId image ≠ .error index) ↔
    ∀ program ∈ programHeaders (imageBytes image), program.type = elfProgramLoad →
      program.memorySize.toNat ≤ 16 * 4096 := by
  obtain ⟨htotal, hiff⟩ := elf_total_pages image_window h
  constructor
  · intro hfit
    exact hiff.mp hfit.2.1
  · intro hsegments
    have hle := hiff.mpr hsegments
    refine ⟨htotal, hle, ?_⟩
    apply loadElfApp_ne_error
    intro elf' helf'
    rw [h, Option.some.injEq] at helf'
    rw [← helf']
    exact hle

/-! ## Two images -/

/-- The bytes of an executable with one load segment at the code address, read and execute, and
    the header that asks for a stack; `low` and `high` are the two bytes of the segment's memory
    size that matter. -/
def oneSegmentImage (low high : UInt8) : List UInt8 :=
  [0x7F, 0x45, 0x4C, 0x46, 2, 1, 1, 0, 0, 0, 0, 0, 0, 0, 0, 0,
   2, 0, 62, 0, 1, 0, 0, 0, 0x00, 0x10, 0x00, 0x00, 0x80, 0, 0, 0,
   64, 0, 0, 0, 0, 0, 0, 0, 0, 0, 0, 0, 0, 0, 0, 0,
   0, 0, 0, 0, 64, 0, 56, 0, 2, 0, 0, 0, 0, 0, 0, 0,
   -- PT_LOAD
   1, 0, 0, 0, 5, 0, 0, 0, 0, 0, 0, 0, 0, 0, 0, 0,
   0x00, 0x10, 0x00, 0x00, 0x80, 0, 0, 0, 0, 0, 0, 0, 0, 0, 0, 0,
   176, 0, 0, 0, 0, 0, 0, 0, 0, low, high, 0, 0, 0, 0, 0,
   0x00, 0x10, 0, 0, 0, 0, 0, 0,
   -- PT_GNU_STACK
   0x51, 0xE5, 0x74, 0x64, 6, 0, 0, 0,
   0, 0, 0, 0, 0, 0, 0, 0, 0, 0, 0, 0, 0, 0, 0, 0, 0, 0, 0, 0, 0, 0, 0, 0,
   0, 0, 0, 0, 0, 0, 0, 0, 0, 0, 0, 0, 0, 0, 0, 0, 0, 0, 0, 0, 0, 0, 0, 0]

/-- One page of memory. -/
def onePageImage : List UInt8 := oneSegmentImage 0x10 0

/-- Seventeen pages of memory. -/
def seventeenPageImage : List UInt8 := oneSegmentImage 0x10 1

theorem validate_onePageImage : validateImage onePageImage =
    some ⟨0x8000001000, 1, [⟨0, 176, 0x8000001000, 4096, 5, 1⟩]⟩ := by
  decide +kernel

theorem image_pages_fit_iff_onePage :
    (∀ program ∈ programHeaders (imageBytes onePageImage),
      program.type = elfProgramLoad → program.memorySize.toNat ≤ 16 * 4096) ∧
    ∀ kernel l pid appId index, loadElfApp kernel l pid appId onePageImage ≠ .error index := by
  have h : ∀ program ∈ programHeaders (imageBytes onePageImage),
      program.type = elfProgramLoad → program.memorySize.toNat ≤ 16 * 4096 := by
    decide +kernel
  exact ⟨h, ((image_pages_fit_iff _ _ validate_onePageImage).mpr h).2.2⟩

theorem validate_seventeenPageImage : validateImage seventeenPageImage =
    some ⟨0x8000001000, 17, [⟨0, 176, 0x8000001000, 17 * 4096, 5, 17⟩]⟩ := by
  decide +kernel

/-- The machine of the examples, before any process. -/
def sampleLoading : Loading := ⟨sampleMachine, ipcInit, .zero⟩

theorem sampleMachine_loadPre : LoadPre sampleKernel sampleMachine :=
  ⟨sampleMachine_pmmOk, sampleMachine_kernelRoot, [256], sampleMachine_held, by decide⟩

/-- The image is accepted with seventeen pages, and loading it stores the seventeenth page's
    address behind the end of the array. -/
theorem seventeen_pages_overrun :
    (validateImage seventeenPageImage).map (fun elf => elf.totalPages) = some 17 ∧
      loadElfApp sampleKernel sampleLoading 1 1 seventeenPageImage = .error 16 := by
  refine ⟨by rw [validate_seventeenPageImage]; rfl, ?_⟩
  have h : (match loadElfApp sampleKernel sampleLoading 1 1 seventeenPageImage with
      | .error index => some index
      | .ok _ => none) = some 16 := by
    decide +kernel
  split at h
  · next index hload =>
    rw [hload, Option.some.inj h]
  · cases h

end ArgusOs.Runtime
