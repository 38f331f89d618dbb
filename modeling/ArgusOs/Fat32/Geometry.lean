/-
  Where things are on a mounted volume.

  `mount` derives its geometry from six fields of an untrusted boot sector. `Geometry` is what
  its checks establish, as natural numbers: no sum or product on the way wraps around, the FATs
  lie before the data area, every cluster lies inside it, and the active FAT has an entry for
  every cluster. The reader relies on nothing else.
-/
import ArgusOs.Fat32.Volume
import ArgusOs.Lib.Word

namespace ArgusOs.Fat32

open Lib

variable {fs : Fat32State} {cluster : UInt32} {device : BlockDevice} {a b : UInt64}

/-- The clusters of the data area. -/
def InRange (fs : Fat32State) (cluster : UInt32) : Prop :=
  2 ≤ cluster.toNat ∧ cluster.toNat < fs.dataClusters.toNat + 2

instance (fs : Fat32State) (cluster : UInt32) : Decidable (InRange fs cluster) :=
  inferInstanceAs (Decidable (_ ∧ _))

/-- The first sector of a cluster. -/
def firstSectorOf (fs : Fat32State) (cluster : UInt32) : Nat :=
  fs.firstDataSector.toNat + (cluster.toNat - 2) * fs.sectorsPerCluster.toNat

/-- The sector of the active FAT that holds a cluster's entry. -/
def fatSectorOf (fs : Fat32State) (cluster : UInt32) : Nat :=
  fs.reservedSectors.toNat + fs.fatSize.toNat * fs.activeFat.toNat + cluster.toNat * 4 / 512

/-- What `mount` has checked, as numbers. -/
structure Geometry (fs : Fat32State) (device : BlockDevice) : Prop where
  state_valid : validState fs = true
  has_read : device.hasRead = true
  spc_pos : 0 < fs.sectorsPerCluster.toNat
  spc_le : fs.sectorsPerCluster.toNat ≤ 128
  reserved_lt : fs.reservedSectors.toNat < 2 ^ 32
  fat_size_lt : fs.fatSize.toNat < 2 ^ 32
  fat_count_le : fs.fatCount.toNat ≤ 2
  active_lt : fs.activeFat.toNat < fs.fatCount.toNat
  first_eq : fs.firstDataSector.toNat =
    fs.reservedSectors.toNat + fs.fatCount.toNat * fs.fatSize.toNat
  first_lt : fs.firstDataSector.toNat < fs.totalSectors.toNat
  total_lt : fs.totalSectors.toNat < 2 ^ 32
  total_le : fs.totalSectors.toNat ≤ device.sectorCount.toNat
  clusters_eq : fs.dataClusters.toNat =
    (fs.totalSectors.toNat - fs.firstDataSector.toNat) / fs.sectorsPerCluster.toNat
  clusters_lt : fs.dataClusters.toNat < fat32MaxClusters.toNat
  fat_covers : fs.dataClusters.toNat + 2 ≤ fs.fatSize.toNat * 128

theorem Geometry.clusters_fit (h : Geometry fs device) :
    fs.dataClusters.toNat * fs.sectorsPerCluster.toNat ≤
      fs.totalSectors.toNat - fs.firstDataSector.toNat := by
  rw [h.clusters_eq]
  exact Nat.div_mul_le_self _ _

theorem checkedAdd_eq (h : a.toNat + b.toNat < 2 ^ 64) : checkedAdd a b = some (a + b) := by
  have hb := b.toNat_lt
  unfold checkedAdd
  rw [if_neg]
  rw [gt_iff_lt, UInt64.lt_iff_toNat_lt, toNat_room]
  omega

theorem checkedMul_eq (h : a.toNat * b.toNat < 2 ^ 64) : checkedMul a b = some (a * b) := by
  unfold checkedMul
  rw [if_neg]
  rintro ⟨h0, hgt⟩
  have hpos : 0 < a.toNat := by
    apply Nat.pos_of_ne_zero
    intro hz
    exact h0 (UInt64.toNat_inj.mp hz)
  rw [gt_iff_lt, UInt64.lt_iff_toNat_lt, UInt64.toNat_div,
    show (0xFFFFFFFFFFFFFFFF : UInt64).toNat = 2 ^ 64 - 1 from rfl,
    Nat.div_lt_iff_lt_mul hpos, Nat.mul_comm] at hgt
  omega

theorem checkedAdd_some {c : UInt64} (h : checkedAdd a b = some c) :
    c.toNat = a.toNat + b.toNat := by
  have hb := b.toNat_lt
  unfold checkedAdd at h
  split at h
  · cases h
  · next hle =>
    cases h
    rw [gt_iff_lt, UInt64.lt_iff_toNat_lt, toNat_room] at hle
    rw [UInt64.toNat_add]
    omega

theorem toUInt64_toNat_le (x : UInt32) : x.toUInt64.toNat < 2 ^ 32 := by
  rw [UInt32.toNat_toUInt64]
  exact x.toNat_lt

theorem checkedMul_some {c : UInt64} (hlt : a.toNat * b.toNat < 2 ^ 64)
    (h : checkedMul a b = some c) : c.toNat = a.toNat * b.toNat := by
  rw [checkedMul_eq hlt] at h
  cases h
  rw [UInt64.toNat_mul]
  omega

/-- The ranges of the boot sector's fields. -/
structure BootSector.Bounded (b : BootSector) : Prop where
  fat_size : b.fatSize.toNat < 2 ^ 32
  total : b.totalSectors.toNat < 2 ^ 32

variable {b : BootSector}

theorem BootSector.checkClusters_spec {first clusters : UInt64} (hsize : b.fatSize.toNat < 2 ^ 32)
    (h : b.checkClusters first clusters = .ok fs) :
    fs = b.state first clusters ∧ fat32MinClusters ≤ clusters ∧ clusters < fat32MaxClusters ∧
      clusters.toNat + 2 ≤ b.fatSize.toNat * 128 := by
  unfold BootSector.checkClusters at h
  by_cases hc : ¬ (fat32MinClusters ≤ clusters ∧ clusters < fat32MaxClusters) ∨
      b.rootCluster.toUInt64 ≥ clusters + 2
  · rw [if_pos hc] at h
    cases h
  rw [if_neg hc] at h
  rw [not_or, not_not] at hc
  obtain ⟨⟨hmin, hmax⟩, _⟩ := hc
  have hmul : b.fatSize.toNat * (512 : UInt64).toNat < 2 ^ 64 := by
    rw [show (512 : UInt64).toNat = 512 from rfl]
    omega
  have hbytes : (b.fatSize * 512).toNat = b.fatSize.toNat * 512 :=
    checkedMul_some hmul (checkedMul_eq hmul)
  rw [checkedMul_eq hmul] at h
  dsimp only at h
  by_cases hcover : b.fatSize * 512 / 4 < clusters + 2
  · rw [if_pos hcover] at h
    cases h
  rw [if_neg hcover] at h
  cases h
  have hmax' := UInt64.lt_iff_toNat_lt.mp hmax
  have hlimit : fat32MaxClusters.toNat < 2 ^ 32 := by decide
  have hplus : (clusters + 2).toNat = clusters.toNat + 2 := by
    rw [UInt64.toNat_add, show (2 : UInt64).toNat = 2 from rfl]
    omega
  rw [UInt64.lt_iff_toNat_lt, hplus, UInt64.toNat_div, hbytes,
    show (4 : UInt64).toNat = 4 from rfl] at hcover
  exact ⟨rfl, hmin, hmax, by omega⟩

theorem BootSector.dataStart_some {first : UInt64} (hb : b.Bounded)
    (hcount : b.fatCount.toNat ≤ 2) (h : b.dataStart = some first) :
    first.toNat = b.reservedSectors.toNat + b.fatCount.toNat * b.fatSize.toNat := by
  have hsize := hb.fat_size
  have hmul : b.fatCount.toUInt64.toNat * b.fatSize.toNat < 2 ^ 64 := by
    have h1 : b.fatCount.toUInt64.toNat ≤ 2 := by
      rw [UInt32.toNat_toUInt64]
      exact hcount
    have h2 := Nat.mul_le_mul_right b.fatSize.toNat h1
    omega
  unfold BootSector.dataStart at h
  rw [checkedMul_eq hmul, Option.bind_some] at h
  rw [checkedAdd_some h, checkedMul_some hmul (checkedMul_eq hmul), UInt32.toNat_toUInt64,
    UInt32.toNat_toUInt64]

/-- The layout is computed without overflow, and is what the numbers say. -/
theorem BootSector.layout_spec {sectorCount : UInt64} (hb : b.Bounded)
    (hcount : b.fatCount.toNat ≤ 2) (h : b.layout sectorCount = .ok fs) :
    ∃ first clusters : UInt64, fs = b.state first clusters ∧
      first.toNat = b.reservedSectors.toNat + b.fatCount.toNat * b.fatSize.toNat ∧
      first.toNat < b.totalSectors.toNat ∧ b.totalSectors.toNat ≤ sectorCount.toNat ∧
      clusters.toNat = (b.totalSectors.toNat - first.toNat) / b.sectorsPerCluster.toNat ∧
      fat32MinClusters ≤ clusters ∧ clusters < fat32MaxClusters ∧
      clusters.toNat + 2 ≤ b.fatSize.toNat * 128 := by
  unfold BootSector.layout at h
  cases hfirst : b.dataStart with
  | none =>
    rw [hfirst] at h
    cases h
  | some first =>
    rw [hfirst] at h
    dsimp only at h
    by_cases hc : first ≥ b.totalSectors ∨ b.totalSectors > sectorCount
    · rw [if_pos hc] at h
      cases h
    rw [if_neg hc] at h
    rw [not_or, ge_iff_le, gt_iff_lt, UInt64.le_iff_toNat_le, UInt64.lt_iff_toNat_lt] at hc
    obtain ⟨rfl, hmin, hmax, hcover⟩ := BootSector.checkClusters_spec hb.fat_size h
    refine ⟨first, _, rfl, BootSector.dataStart_some hb hcount hfirst, by omega, by omega, ?_,
      hmin, hmax, hcover⟩
    unfold BootSector.clustersFrom
    rw [UInt64.toNat_div, UInt32.toNat_toUInt64,
      toNat_sub64 (by omega)]

theorem BootSector.layout_geometry (hb : b.Bounded) (hread : device.hasRead = true)
    (hsup : b.unsupported = false) (h : b.layout device.sectorCount = .ok fs) :
    Geometry fs device := by
  simp only [BootSector.unsupported, decide_eq_false_iff_not, not_or, not_and_or, not_not] at hsup
  obtain ⟨hbps, hspc0, hspc, hpow, hres, hcount, _, _, _, _, hfat, hactive, _, hroot⟩ := hsup
  have hcount' : b.fatCount.toNat ≤ 2 := by
    rcases hcount with hc | hc
    · rw [hc]
      decide
    · rw [hc]
      decide
  obtain ⟨first, clusters, rfl, hfirst, hlt, hle, hfit, hmin, hmax, hcover⟩ :=
    BootSector.layout_spec hb hcount' h
  have hspc' : b.sectorsPerCluster ≤ 128 := by
    rw [UInt32.le_iff_toNat_le]
    rw [gt_iff_lt, UInt32.lt_iff_toNat_lt] at hspc
    omega
  have hactive' : b.activeFat < b.fatCount := by
    rw [UInt32.lt_iff_toNat_lt]
    rw [ge_iff_le, UInt32.le_iff_toNat_le] at hactive
    omega
  have hroot' : (2 : UInt32) ≤ b.rootCluster := by
    rw [UInt32.le_iff_toNat_le]
    rw [UInt32.lt_iff_toNat_lt] at hroot
    omega
  exact {
    state_valid := by
      simp [validState, BootSector.state, hbps, hspc0, hspc', hpow, hres, hcount, hactive', hfat,
        hroot', hmin, hmax, UInt64.lt_iff_toNat_lt.mpr hlt]
    has_read := hread
    spc_pos := Nat.pos_of_ne_zero fun hz => hspc0 (UInt32.toNat_inj.mp hz)
    spc_le := UInt32.le_iff_toNat_le.mp hspc'
    reserved_lt := UInt32.toNat_lt _
    fat_size_lt := hb.fat_size
    fat_count_le := hcount'
    active_lt := UInt32.lt_iff_toNat_lt.mp hactive'
    first_eq := hfirst
    first_lt := hlt
    total_lt := hb.total
    total_le := hle
    clusters_eq := hfit
    clusters_lt := UInt64.lt_iff_toNat_lt.mp hmax
    fat_covers := hcover }

theorem readBootSector_bounded (sector : Sector) : (readBootSector sector).Bounded :=
  ⟨toUInt64_toNat_le _, toUInt64_toNat_le _⟩

theorem mount_geometry {state pointer : PointerShape} {stateSize : UInt64}
    (h : mount state stateSize pointer device = .ok fs) :
    Geometry fs device ∧ validDevice pointer device = true := by
  unfold mount at h
  split at h
  · cases h
  next hargs =>
  rw [not_or, not_or, Bool.not_eq_false] at hargs
  have hdev := hargs.2.2
  have hread : device.hasRead = true := by
    have := hdev
    unfold validDevice at this
    rw [decide_eq_true_iff] at this
    exact this.2.2.2.2.2.2
  split at h
  · cases h
  split at h
  · cases h
  split at h
  · cases h
  next hsup =>
  exact ⟨BootSector.layout_geometry (readBootSector_bounded _) hread (by simpa using hsup) h, hdev⟩

/-! ## Sectors and clusters in range -/

theorem orCorrupt_some_bind {α β : Type} (a : α) (f : α → Except Status β) :
    (orCorrupt (some a) >>= f) = f a := rfl

section

variable (hg : Geometry fs device)

include hg

theorem inRange_iff (cluster : UInt32) :
    InRange fs cluster ↔ ¬ (cluster < 2 ∨ cluster.toUInt64 ≥ fs.dataClusters + 2) := by
  have hlt := hg.clusters_lt
  have hmax : fat32MaxClusters.toNat < 2 ^ 32 := by decide
  have hplus : (fs.dataClusters + 2).toNat = fs.dataClusters.toNat + 2 := by
    rw [UInt64.toNat_add, show (2 : UInt64).toNat = 2 from rfl]
    omega
  rw [not_or, UInt32.lt_iff_toNat_lt, ge_iff_le, UInt64.le_iff_toNat_le, hplus,
    UInt32.toNat_toUInt64, show (2 : UInt32).toNat = 2 from rfl]
  unfold InRange
  omega

/-- The last sector of a cluster in range lies on the volume. -/
theorem firstSectorOf_le (h : InRange fs cluster) :
    firstSectorOf fs cluster + fs.sectorsPerCluster.toNat ≤ fs.totalSectors.toNat := by
  obtain ⟨hlow, hhigh⟩ := h
  have hrows : (cluster.toNat - 2 + 1) * fs.sectorsPerCluster.toNat ≤
      fs.dataClusters.toNat * fs.sectorsPerCluster.toNat :=
    Nat.mul_le_mul_right _ (by omega)
  rw [Nat.add_mul, Nat.one_mul] at hrows
  have hfit := hg.clusters_fit
  have hlt := hg.first_lt
  unfold firstSectorOf
  omega

theorem clusterToSector_inRange (h : InRange fs cluster) :
    clusterToSector fs cluster = some (UInt64.ofNat (firstSectorOf fs cluster)) := by
  have hend := firstSectorOf_le hg h
  have htotal := hg.total_lt
  have hsub : (cluster - 2).toUInt64.toNat = cluster.toNat - 2 := by
    rw [UInt32.toNat_toUInt64, UInt32.toNat_sub_of_le cluster 2 (UInt32.le_iff_toNat_le.mpr h.1)]
    rfl
  unfold firstSectorOf at hend ⊢
  generalize hrel : (cluster.toNat - 2) * fs.sectorsPerCluster.toNat = rel at hend
  have hmul : (cluster - 2).toUInt64.toNat * fs.sectorsPerCluster.toUInt64.toNat < 2 ^ 64 := by
    rw [hsub, UInt32.toNat_toUInt64, hrel]
    omega
  have hmul' := checkedMul_some hmul (checkedMul_eq hmul)
  rw [hsub, UInt32.toNat_toUInt64, hrel] at hmul'
  have hadd : fs.firstDataSector.toNat +
      ((cluster - 2).toUInt64 * fs.sectorsPerCluster.toUInt64).toNat < 2 ^ 64 := by
    rw [hmul']
    omega
  have hadd' := checkedAdd_some (checkedAdd_eq hadd)
  rw [hmul'] at hadd'
  have hlast : (fs.firstDataSector + (cluster - 2).toUInt64 *
      fs.sectorsPerCluster.toUInt64).toNat + fs.sectorsPerCluster.toUInt64.toNat < 2 ^ 64 := by
    rw [hadd', UInt32.toNat_toUInt64]
    omega
  have hlast' := checkedAdd_some (checkedAdd_eq hlast)
  rw [hadd', UInt32.toNat_toUInt64] at hlast'
  unfold clusterToSector
  rw [if_neg ((inRange_iff hg cluster).mp h), checkedMul_eq hmul, Option.bind_some,
    checkedAdd_eq hadd, Option.bind_some, checkedAdd_eq hlast, Option.bind_some, if_pos]
  · rw [← hadd', UInt64.ofNat_toNat]
  · rw [UInt64.le_iff_toNat_le, hlast']
    omega

theorem clusterToSector_outOfRange (h : ¬ InRange fs cluster) :
    clusterToSector fs cluster = none := by
  rw [inRange_iff hg, not_not] at h
  unfold clusterToSector
  rw [if_pos h]

/-- The entry of a cluster in range lies in the active FAT. -/
theorem fatSectorOf_inside (h : InRange fs cluster) :
    fatSectorOf fs cluster <
      fs.reservedSectors.toNat + fs.fatSize.toNat * fs.activeFat.toNat + fs.fatSize.toNat := by
  have hcovers := hg.fat_covers
  have hhigh := h.2
  unfold fatSectorOf
  omega

/-- The active copy of the FAT ends before the data area starts. -/
theorem fatSectorOf_lt (h : InRange fs cluster) :
    fatSectorOf fs cluster < fs.firstDataSector.toNat := by
  have hinside := fatSectorOf_inside hg h
  have hrows : (fs.activeFat.toNat + 1) * fs.fatSize.toNat ≤
      fs.fatCount.toNat * fs.fatSize.toNat := Nat.mul_le_mul_right _ hg.active_lt
  rw [Nat.add_mul, Nat.one_mul, Nat.mul_comm fs.activeFat.toNat] at hrows
  have hfirst := hg.first_eq
  omega

/-- Looking up a cluster in range reads that sector, and nothing on the way overflows. -/
theorem readFatEntry_reads (h : InRange fs cluster) :
    ∃ sector : UInt64, sector.toNat = fatSectorOf fs cluster ∧
      readFatEntry fs device cluster = (readSector device sector).map fun bytes =>
        readU32 bytes (cluster.toNat * 4 % 512) &&& 0x0FFFFFFF := by
  have hcluster := cluster.toNat_lt
  have hinside := fatSectorOf_inside hg h
  have hbefore := fatSectorOf_lt hg h
  have hfirstLt := hg.first_lt
  have htotal := hg.total_lt
  unfold fatSectorOf at *
  have hmul : cluster.toUInt64.toNat * (4 : UInt64).toNat < 2 ^ 64 := by
    rw [UInt32.toNat_toUInt64, show (4 : UInt64).toNat = 4 from rfl]
    omega
  have hoffset := checkedMul_some hmul (checkedMul_eq hmul)
  rw [UInt32.toNat_toUInt64, show (4 : UInt64).toNat = 4 from rfl] at hoffset
  have hdiv : (cluster.toUInt64 * 4 / 512).toNat = cluster.toNat * 4 / 512 := by
    rw [UInt64.toNat_div, hoffset]
    rfl
  have hmod : (cluster.toUInt64 * 4 % 512).toNat = cluster.toNat * 4 % 512 := by
    rw [UInt64.toNat_mod, hoffset]
    rfl
  have hmul2 : fs.fatSize.toNat * fs.activeFat.toUInt64.toNat < 2 ^ 64 := by
    rw [UInt32.toNat_toUInt64]
    omega
  have hactive := checkedMul_some hmul2 (checkedMul_eq hmul2)
  rw [UInt32.toNat_toUInt64] at hactive
  have hadd : fs.reservedSectors.toUInt64.toNat + (fs.fatSize * fs.activeFat.toUInt64).toNat <
      2 ^ 64 := by
    rw [UInt32.toNat_toUInt64, hactive]
    omega
  have hstart := checkedAdd_some (checkedAdd_eq hadd)
  rw [UInt32.toNat_toUInt64, hactive] at hstart
  have hadd2 : (fs.reservedSectors.toUInt64 + fs.fatSize * fs.activeFat.toUInt64).toNat +
      (cluster.toUInt64 * 4 / 512).toNat < 2 ^ 64 := by
    rw [hstart, hdiv]
    omega
  have hsector := checkedAdd_some (checkedAdd_eq hadd2)
  rw [hstart, hdiv] at hsector
  have hin : ¬ cluster.toUInt64 * 4 / 512 ≥ fs.fatSize := by
    rw [ge_iff_le, UInt64.le_iff_toNat_le, hdiv]
    omega
  refine ⟨_, hsector, ?_⟩
  unfold readFatEntry
  rw [checkedMul_eq hmul, orCorrupt_some_bind, if_neg hin, checkedMul_eq hmul2,
    orCorrupt_some_bind, checkedAdd_eq hadd, orCorrupt_some_bind, checkedAdd_eq hadd2,
    orCorrupt_some_bind, hmod]
  cases readSector device
    (fs.reservedSectors.toUInt64 + fs.fatSize * fs.activeFat.toUInt64 + cluster.toUInt64 *
      4 / 512) <;>
    rfl

/-- The values that end a chain or mark it broken are not clusters of the volume. -/
theorem not_inRange_of_end (h : cluster ≥ fat32Eoc ∨ cluster < 2 ∨ cluster = fat32BadCluster) :
    ¬ InRange fs cluster := by
  have hlt := hg.clusters_lt
  rw [show fat32MaxClusters.toNat = 0x0FFFFFF5 from rfl] at hlt
  rintro ⟨hlow, hhigh⟩
  rcases h with h | h | h
  · rw [ge_iff_le, UInt32.le_iff_toNat_le, show fat32Eoc.toNat = 0x0FFFFFF8 from rfl] at h
    omega
  · rw [UInt32.lt_iff_toNat_lt, show (2 : UInt32).toNat = 2 from rfl] at h
    omega
  · rw [h, show fat32BadCluster.toNat = 0x0FFFFFF7 from rfl] at hhigh
    omega

end

/-! ## Mounting, as the caller sees it -/

/-- The caller's state buffer: written at the very end, if nothing failed. -/
def mountInto (before : Fat32State) (state : PointerShape) (stateSize : UInt64)
    (pointer : PointerShape) (device : BlockDevice) : Status × Fat32State :=
  match mount state stateSize pointer device with
  | .ok fs => (.ok, fs)
  | .error status => (status, before)

/-- What holds of a cluster of the data area: its sectors are inside it, its entry is read from
    the active FAT, and its number is none of the marks in a chain. -/
structure ClusterSafe (fs : Fat32State) (device : BlockDevice) (cluster : UInt32) : Prop where
  sectors : ∃ sector, clusterToSector fs cluster = some sector ∧
    sector.toNat = firstSectorOf fs cluster ∧ fs.firstDataSector.toNat ≤ sector.toNat ∧
    sector.toNat + fs.sectorsPerCluster.toNat ≤ fs.totalSectors.toNat
  entry : ∃ sector : UInt64,
    fs.reservedSectors.toNat + fs.fatSize.toNat * fs.activeFat.toNat ≤ sector.toNat ∧
    sector.toNat <
      fs.reservedSectors.toNat + fs.fatSize.toNat * fs.activeFat.toNat + fs.fatSize.toNat ∧
    sector.toNat < fs.firstDataSector.toNat ∧
    readFatEntry fs device cluster = (readSector device sector).map fun bytes =>
      readU32 bytes (cluster.toNat * 4 % 512) &&& 0x0FFFFFFF
  not_corrupt : readFatEntry fs device cluster ≠ .error .corrupt
  not_mark : cluster < fat32Eoc ∧ cluster ≠ fat32BadCluster

/-- What a mounted volume guarantees. The numbers are those of the boot sector's fields without
    any wrap-around. -/
structure VolumeSafe (fs : Fat32State) (device : BlockDevice) : Prop where
  state_valid : validState fs = true
  total_le : fs.totalSectors.toNat ≤ device.sectorCount.toNat
  first_eq : fs.firstDataSector.toNat =
    fs.reservedSectors.toNat + fs.fatCount.toNat * fs.fatSize.toNat
  first_lt : fs.firstDataSector.toNat < fs.totalSectors.toNat
  clusters_eq : fs.dataClusters.toNat =
    (fs.totalSectors.toNat - fs.firstDataSector.toNat) / fs.sectorsPerCluster.toNat
  limit_eq : (fs.dataClusters + 2).toNat = fs.dataClusters.toNat + 2
  fat_bytes_eq : (fs.fatSize * 512).toNat = fs.fatSize.toNat * 512
  cluster : ∀ c, InRange fs c → ClusterSafe fs device c
  apart : ∀ c d, InRange fs c → InRange fs d → c ≠ d →
    firstSectorOf fs c + fs.sectorsPerCluster.toNat ≤ firstSectorOf fs d ∨
      firstSectorOf fs d + fs.sectorsPerCluster.toNat ≤ firstSectorOf fs c

theorem readSector_ne_corrupt (device : BlockDevice) (sector : UInt64) :
    readSector device sector ≠ .error .corrupt := by
  unfold readSector
  split
  · simp
  split
  · simp
  split <;> simp

theorem clusterSafe (hg : Geometry fs device) (h : InRange fs cluster) :
    ClusterSafe fs device cluster := by
  have hend := firstSectorOf_le hg h
  have htotal := hg.total_lt
  obtain ⟨sector, hsector, hread⟩ := readFatEntry_reads hg h
  refine ⟨?_, ⟨sector, ?_, ?_, ?_, hread⟩, ?_, ?_⟩
  · have hnat : (UInt64.ofNat (firstSectorOf fs cluster)).toNat = firstSectorOf fs cluster := by
      rw [UInt64.toNat_ofNat']
      omega
    refine ⟨_, clusterToSector_inRange hg h, hnat, ?_, ?_⟩
    · rw [hnat]
      exact Nat.le_add_right ..
    · rw [hnat]
      exact hend
  · rw [hsector]
    exact Nat.le_add_right ..
  · rw [hsector]
    exact fatSectorOf_inside hg h
  · rw [hsector]
    exact fatSectorOf_lt hg h
  · have hne := readSector_ne_corrupt device sector
    rw [hread]
    cases hs : readSector device sector with
    | ok bytes => exact fun hc => by cases hc
    | error status =>
      rw [hs] at hne
      intro hc
      change Except.error status = _ at hc
      rw [Except.error.injEq] at hc
      exact hne (by rw [hc])
  · have hmark := mt (not_inRange_of_end hg) (not_not.mpr h)
    rw [not_or, not_or] at hmark
    exact ⟨UInt32.not_le.mp hmark.1, hmark.2.2⟩

theorem clusters_apart (fs : Fat32State) {c d : UInt32} (hc : InRange fs c)
    (hlt : c.toNat < d.toNat) :
    firstSectorOf fs c + fs.sectorsPerCluster.toNat ≤ firstSectorOf fs d := by
  have hrows : (c.toNat - 2 + 1) * fs.sectorsPerCluster.toNat ≤
      (d.toNat - 2) * fs.sectorsPerCluster.toNat := Nat.mul_le_mul_right _ (by
    have := hc.1
    omega)
  rw [Nat.add_mul, Nat.one_mul] at hrows
  unfold firstSectorOf
  omega

theorem mount_error_ne_ok {state pointer : PointerShape} {stateSize : UInt64} {status : Status}
    (h : mount state stateSize pointer device = .error status) : status ≠ .ok := by
  rintro rfl
  unfold mount BootSector.layout BootSector.checkClusters at h
  repeat' split at h
  all_goals cases h

/-- A mount that succeeds leaves a safe volume, whatever the boot sector says; one that does not
    leaves the caller's state as it was. -/
theorem mount_establishes_geometry (before : Fat32State) (state pointer : PointerShape)
    (stateSize : UInt64) (device : BlockDevice) :
    ((mountInto before state stateSize pointer device).1 = .ok →
      VolumeSafe (mountInto before state stateSize pointer device).2 device) ∧
    ((mountInto before state stateSize pointer device).1 ≠ .ok →
      (mountInto before state stateSize pointer device).2 = before) := by
  unfold mountInto
  cases hmount : mount state stateSize pointer device with
  | error status =>
    refine ⟨fun hok => absurd hok ?_, fun _ => rfl⟩
    exact mount_error_ne_ok hmount
  | ok fs =>
    refine ⟨fun _ => ?_, fun hne => absurd rfl hne⟩
    obtain ⟨hg, -⟩ := mount_geometry hmount
    have hlt := hg.clusters_lt
    have hsize := hg.fat_size_lt
    rw [show fat32MaxClusters.toNat = 0x0FFFFFF5 from rfl] at hlt
    dsimp only
    refine
      { state_valid := hg.state_valid
        total_le := hg.total_le
        first_eq := hg.first_eq
        first_lt := hg.first_lt
        clusters_eq := hg.clusters_eq
        limit_eq := ?_
        fat_bytes_eq := ?_
        cluster := fun c hc => clusterSafe hg hc
        apart := fun c d hc hd hne => ?_ }
    · rw [UInt64.toNat_add, show (2 : UInt64).toNat = 2 from rfl]
      omega
    · rw [UInt64.toNat_mul, show (512 : UInt64).toNat = 512 from rfl]
      omega
    · rcases Nat.lt_or_gt_of_ne fun heq => hne (UInt32.toNat_inj.mp heq) with hlt | hgt
      · exact Or.inl (clusters_apart fs hc hlt)
      · exact Or.inr (clusters_apart fs hd hgt)

/-! A volume of 66038 sectors with an empty file `/A` and a file of 600 bytes, `/HELLO.TXT`, in
    clusters 3 and 4. -/

/-- A sector that is zero except for a few bytes. -/
def sparseSector (bytes : List (Nat × UInt8)) : Sector := fun i => (bytes.lookup i).getD 0

def textAt (start : Nat) (bytes : List UInt8) : List (Nat × UInt8) :=
  (bytes.zipIdx start).map Prod.swap

def sampleDevice : BlockDevice where
  abiVersion := 1
  structSize := 64
  sectorSize := 512
  reserved := 0
  sectorCount := 66038
  hasRead := true
  read := fun sector => some (
    if sector = 0 then sparseSector [(12, 2), (13, 1), (14, 1), (16, 1), (32, 0xF6), (33, 1),
      (34, 1), (37, 2), (44, 2), (510, 0x55), (511, 0xAA)]
    else if sector = 1 then sparseSector [(12, 4)]
    else if sector = 513 then
      sparseSector (textAt 0 (65 :: List.replicate 11 32) ++
        textAt 32 [72, 69, 76, 76, 79, 32, 32, 32, 84, 88, 84, 32] ++
        [(58, 3), (60, 0x58), (61, 2)])
    else fun i => UInt8.ofNat i)

def sampleState : Fat32State where
  magic := fatStateMagic
  bytesPerSector := 512
  sectorsPerCluster := 1
  reservedSectors := 1
  fatCount := 1
  fatSize := 512
  totalSectors := 66038
  rootCluster := 2
  activeFat := 0
  firstDataSector := 513
  dataClusters := 65525

/-- `/hello.txt`. -/
def samplePath : List UInt8 := [47, 104, 101, 108, 108, 111, 46, 116, 120, 116]

theorem sampleDevice_mounts : mount .fine 64 .fine sampleDevice = .ok sampleState := by
  decide +kernel

theorem mount_establishes_geometry_sample :
    (mountInto sampleState .fine 64 .fine sampleDevice).1 = .ok ∧
      VolumeSafe (mountInto sampleState .fine 64 .fine sampleDevice).2 sampleDevice := by
  have h : (mountInto sampleState .fine 64 .fine sampleDevice).1 = .ok := by decide +kernel
  exact ⟨h, (mount_establishes_geometry sampleState .fine .fine 64 sampleDevice).1 h⟩

end ArgusOs.Fat32
