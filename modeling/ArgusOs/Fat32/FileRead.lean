/-
  Reading a file returns the file.

  On a mounted volume whose device answers every read in range, the sectors the reader asks
  for are always in range (`Geometry`), so the loops see the volume only through three
  functions: the content of a sector, the data of a cluster and the entry of the active FAT
  that follows a cluster.

  `FirstMatch` says which record of the root directory a path stands for (it is the one the
  search of the listing takes, `listRoot_find`), and `clusterChain` which clusters a file is made
  of. `readFile_returns_file` says that `read_file` returns the first bytes of exactly those
  clusters, or that the volume is corrupt.
-/
import ArgusOs.Fat32.Lookup

namespace ArgusOs.Fat32

open Lib

variable {device : BlockDevice} {size : Nat} {record : Sector} {outputCapacity : UInt64}
  {path : List UInt8} {fs : Fat32State} {cluster : UInt32} {found : FoundEntry}

/-! ## The volume -/

/-- Every read in range succeeds. -/
def Reliable (device : BlockDevice) : Prop :=
  ∀ sector, sector < device.sectorCount → ∃ bytes, device.read sector = some bytes

/-- The bytes of a sector. -/
def contentOf (device : BlockDevice) (sector : Nat) : Sector :=
  (device.read (UInt64.ofNat sector)).getD fun _ => 0

/-- The bytes of `count` sectors from `start` on. -/
def sectorBytes (device : BlockDevice) (start count : Nat) : List UInt8 :=
  (List.range count).flatMap fun k => bytesOf (contentOf device (start + k)) sectorSize

/-- The data of a cluster. -/
def clusterData (fs : Fat32State) (device : BlockDevice) (cluster : UInt32) : List UInt8 :=
  sectorBytes device (firstSectorOf fs cluster) fs.sectorsPerCluster.toNat

/-- The entry of a cluster in the active FAT. -/
def nextCluster (fs : Fat32State) (device : BlockDevice) (cluster : UInt32) : UInt32 :=
  readU32 (contentOf device (fs.reservedSectors.toNat +
      fs.fatSize.toNat * fs.activeFat.toNat + cluster.toNat * 4 / 512)) (cluster.toNat *
        4 % 512) &&&
    0x0FFFFFFF

/-- The first `count` clusters of the chain that starts with a cluster. -/
def clusterChain (fs : Fat32State) (device : BlockDevice) (first : UInt32) (count : Nat) :
    List UInt32 :=
  (List.range count).map fun i => (nextCluster fs device)^[i] first

/-- The clusters a file takes. -/
def clustersFor (fs : Fat32State) (size : Nat) : Nat :=
  (size + sectorSize * fs.sectorsPerCluster.toNat - 1) / (sectorSize * fs.sectorsPerCluster.toNat)

theorem readSector_ok {sector : UInt64} (hr : Reliable device) (hread : device.hasRead = true)
    (h : sector.toNat < device.sectorCount.toNat) :
    readSector device sector = .ok (contentOf device sector.toNat) := by
  obtain ⟨bytes, hbytes⟩ := hr sector (UInt64.lt_iff_toNat_lt.mpr h)
  have hin : ¬ sector ≥ device.sectorCount := by
    rw [ge_iff_le, UInt64.le_iff_toNat_le]
    omega
  unfold readSector contentOf
  rw [if_neg hin, if_neg (by simp [hread]), UInt64.ofNat_toNat, hbytes]
  rfl

theorem readFatEntry_inRange (hg : Geometry fs device) (hr : Reliable device)
    (h : InRange fs cluster) :
    readFatEntry fs device cluster = .ok (nextCluster fs device cluster) := by
  obtain ⟨sector, hsector, hread⟩ := readFatEntry_reads hg h
  have hbefore := fatSectorOf_lt hg h
  have hlt := hg.first_lt
  have hle := hg.total_le
  rw [hread, readSector_ok hr hg.has_read (by omega), hsector]
  rfl

/-! ## Copying -/

theorem sectorBytes_succ (device : BlockDevice) (start count : Nat) :
    sectorBytes device start (count + 1) =
      bytesOf (contentOf device start) sectorSize ++ sectorBytes device (start + 1) count := by
  unfold sectorBytes
  simp only [List.range_succ_eq_map, List.flatMap_cons, List.flatMap_map, Nat.add_zero,
    Nat.succ_eq_add_one, Nat.add_right_comm start 1, Nat.add_assoc]

theorem sectorBytes_length (device : BlockDevice) (start count : Nat) :
    (sectorBytes device start count).length = count * sectorSize := by
  induction count generalizing start with
  | zero => simp [sectorBytes]
  | succ n ih =>
    rw [sectorBytes_succ, List.length_append, bytesOf_length, ih, Nat.add_mul]
    omega

theorem take_bytesOf (f : Nat → UInt8) {m n : Nat} (h : m ≤ n) :
    (bytesOf f n).take m = bytesOf f m := by
  unfold bytesOf
  rw [← List.map_take, List.take_range, Nat.min_eq_left h]

/-- One turn of the copying loop takes what is still needed of a sector. -/
theorem copied_eq (remaining : Nat) (f : Nat → UInt8) :
    bytesOf f (if remaining < sectorSize then remaining else sectorSize) =
      (bytesOf f sectorSize).take remaining := by
  split
  · next h => rw [take_bytesOf f (Nat.le_of_lt h)]
  · next h => rw [List.take_of_length_le (by rw [bytesOf_length]; omega)]

theorem copySectors_spec (hg : Geometry fs device) (hr : Reliable device) (first : UInt64)
    (left offset : Nat) (c : Copying)
    (hin : first.toNat + offset + left ≤ device.sectorCount.toNat) :
    copySectors device first left offset c =
      (⟨c.remaining - left * sectorSize,
        c.output ++ (sectorBytes device (first.toNat + offset) left).take c.remaining⟩, none) := by
  induction left generalizing offset c with
  | zero => simp [copySectors, sectorBytes]
  | succ n ih =>
    unfold copySectors
    by_cases h0 : c.remaining = 0
    · rw [if_pos h0, h0, Nat.zero_sub, List.take_zero, List.append_nil]
      cases c
      cases h0
      rfl
    · have hcount := device.sectorCount.toNat_lt
      have hsector : (first + UInt64.ofNat offset).toNat = first.toNat + offset := by
        rw [UInt64.toNat_add, UInt64.toNat_ofNat']
        omega
      rw [if_neg h0, readSector_ok hr hg.has_read (by omega), hsector]
      dsimp only
      rw [ih _ _ (by omega), copied_eq, sectorBytes_succ, List.take_append, bytesOf_length,
        Nat.add_assoc first.toNat, ← List.append_assoc]
      have hrest : c.remaining - (if c.remaining < sectorSize then c.remaining else sectorSize) =
          c.remaining - sectorSize := by
        split <;> omega
      rw [hrest, Nat.sub_sub, Nat.add_mul, Nat.one_mul, Nat.add_comm sectorSize]

theorem firstSectorOf_toNat (hg : Geometry fs device) (hin : InRange fs cluster) :
    (UInt64.ofNat (firstSectorOf fs cluster)).toNat = firstSectorOf fs cluster := by
  have hlast := firstSectorOf_le hg hin
  have htotal := hg.total_lt
  rw [UInt64.toNat_ofNat']
  omega

/-- The loop over the sectors of a cluster copies the cluster. -/
theorem copyCluster_spec (hg : Geometry fs device) (hr : Reliable device) (hin : InRange fs cluster)
    (c : Copying) :
    copySectors device (UInt64.ofNat (firstSectorOf fs cluster)) fs.sectorsPerCluster.toNat 0 c =
      (⟨c.remaining - sectorSize * fs.sectorsPerCluster.toNat,
        c.output ++ (clusterData fs device cluster).take c.remaining⟩, none) := by
  have hlast := firstSectorOf_le hg hin
  have hcount := hg.total_le
  have hfirst := firstSectorOf_toNat hg hin
  rw [copySectors_spec hg hr _ _ _ _ (by omega), hfirst, Nat.add_zero, Nat.mul_comm]
  rfl

theorem clusterChain_succ (first : UInt32) (count : Nat) :
    clusterChain fs device first (count + 1) =
      first :: clusterChain fs device (nextCluster fs device first) count := by
  unfold clusterChain
  rw [List.range_succ_eq_map, List.map_cons, List.map_map]
  rfl

/-- A chain a file can be read along, when some clusters have been seen. -/
def Sound (fs : Fat32State) (seen chain : List UInt32) : Prop :=
  (∀ cluster ∈ chain, InRange fs cluster) ∧ (∀ cluster ∈ chain, cluster ∉ seen) ∧ chain.Nodup

theorem sound_cons {seen chain : List UInt32} :
    Sound fs seen (cluster :: chain) ↔
      InRange fs cluster ∧ cluster ∉ seen ∧ Sound fs (seen ++ [cluster]) chain := by
  have hfresh : cluster ∉ chain ↔ ∀ a ∈ chain, a ≠ cluster :=
    ⟨fun h a ha he => h (he ▸ ha), fun h hm => h cluster hm rfl⟩
  simp only [Sound, List.forall_mem_cons, List.nodup_cons, hfresh, List.mem_append,
    List.mem_singleton, not_or, forall_and]
  tauto

theorem sound_nil {chain : List UInt32} :
    Sound fs [] chain ↔ (∀ cluster ∈ chain, InRange fs cluster) ∧ chain.Nodup := by
  simp [Sound]

theorem clusterData_length (fs : Fat32State) (device : BlockDevice) (cluster : UInt32) :
    (clusterData fs device cluster).length = sectorSize * fs.sectorsPerCluster.toNat := by
  unfold clusterData
  rw [sectorBytes_length, Nat.mul_comm]

theorem clustersFor_eq_zero (hg : Geometry fs device) : clustersFor fs size = 0 ↔ size = 0 := by
  have hpos : 0 < sectorSize * fs.sectorsPerCluster.toNat := Nat.mul_pos (by decide) hg.spc_pos
  unfold clustersFor
  rw [Nat.div_eq_zero_iff]
  omega

theorem clustersFor_step (hg : Geometry fs device) (h : size ≠ 0) :
    clustersFor fs size = clustersFor fs (size - sectorSize * fs.sectorsPerCluster.toNat) + 1 := by
  have hpos : 0 < sectorSize * fs.sectorsPerCluster.toNat := Nat.mul_pos (by decide) hg.spc_pos
  unfold clustersFor
  generalize sectorSize * fs.sectorsPerCluster.toNat = b at hpos
  by_cases hle : size ≤ b
  · rw [Nat.sub_eq_zero_of_le hle, Nat.zero_add, Nat.div_eq_of_lt (by omega : b - 1 < b),
      show size + b - 1 = size - 1 + b by omega, Nat.add_div_right _ hpos,
      Nat.div_eq_of_lt (by omega)]
  · rw [show size + b - 1 = (size - b + b - 1) + b by omega, Nat.add_div_right _ hpos]

/-- Copying along a chain: all of what was asked for, or the volume is corrupt. -/
def CopiedAlong (fs : Fat32State) (device : BlockDevice) (seen chain : List UInt32) (c : Copying)
    (result : Copying × Status) : Prop :=
  (Sound fs seen chain → result =
    (⟨0, c.output ++ (chain.flatMap (clusterData fs device)).take c.remaining⟩, .ok)) ∧
  (¬ Sound fs seen chain → result.2 = .corrupt)

theorem copyClusters_of_done (left : Nat) (cluster : UInt32) (seen : List UInt32) {c : Copying}
    (h : c.remaining = 0) : copyClusters fs device left cluster seen c = (c, .ok) := by
  cases left <;> exact if_pos h

theorem copyClusters_done (hg : Geometry fs device) (left : Nat) (cluster : UInt32)
    (seen : List UInt32) (c : Copying) (h : c.remaining = 0) :
    CopiedAlong fs device seen (clusterChain fs device cluster (clustersFor fs c.remaining)) c
      (copyClusters fs device left cluster seen c) := by
  have hnone : clusterChain fs device cluster (clustersFor fs c.remaining) = [] := by
    rw [(clustersFor_eq_zero hg).mpr h]
    rfl
  rw [hnone, copyClusters_of_done left cluster seen h]
  constructor
  · intro _
    rw [h, List.take_zero, List.append_nil, ← h]
  · intro hbad
    exact absurd ⟨by simp, by simp, List.nodup_nil⟩ hbad

/-- Each turn of the loop over clusters takes one off the chain; `left` are still allowed. -/
theorem copyClusters_spec (hg : Geometry fs device) (hr : Reliable device) (left : Nat)
    (cluster : UInt32) (seen : List UInt32) (c : Copying)
    (hroom : clustersFor fs c.remaining ≤ left) :
    CopiedAlong fs device seen (clusterChain fs device cluster (clustersFor fs c.remaining)) c
      (copyClusters fs device left cluster seen c) := by
  induction left generalizing cluster seen c with
  | zero =>
    have h0 : c.remaining = 0 := (clustersFor_eq_zero hg).mp (Nat.le_zero.mp hroom)
    exact copyClusters_done hg 0 cluster seen c h0
  | succ left ih =>
    by_cases h0 : c.remaining = 0
    · exact copyClusters_done hg (left + 1) cluster seen c h0
    rw [clustersFor_step hg h0] at hroom ⊢
    rw [clusterChain_succ]
    unfold CopiedAlong copyClusters
    rw [sound_cons, if_neg h0]
    by_cases hseen : cluster ∈ seen
    · rw [if_pos hseen]
      exact ⟨fun h => absurd hseen h.2.1, fun _ => rfl⟩
    rw [if_neg hseen]
    by_cases hin : InRange fs cluster
    swap
    · rw [clusterToSector_outOfRange hg hin]
      exact ⟨fun h => absurd h.1 hin, fun _ => rfl⟩
    rw [clusterToSector_inRange hg hin]
    dsimp only
    rw [copyCluster_spec hg hr hin]
    dsimp only
    -- what is left after this cluster, and the bytes it gave
    have hsplit : (clusterData fs device cluster).take c.remaining ++
        ((clusterChain fs device (nextCluster fs device cluster) (clustersFor fs
            (c.remaining - sectorSize * fs.sectorsPerCluster.toNat))).flatMap
          (clusterData fs device)).take
            (c.remaining - sectorSize * fs.sectorsPerCluster.toNat) =
        ((cluster :: clusterChain fs device (nextCluster fs device cluster) (clustersFor fs
            (c.remaining - sectorSize * fs.sectorsPerCluster.toNat))).flatMap
          (clusterData fs device)).take c.remaining := by
      rw [List.flatMap_cons, List.take_append, clusterData_length]
    rw [← hsplit, ← List.append_assoc]
    have ih' := ih (nextCluster fs device cluster) (seen ++ [cluster])
      ⟨c.remaining - sectorSize * fs.sectorsPerCluster.toNat,
        c.output ++ (clusterData fs device cluster).take c.remaining⟩
      (Nat.le_of_succ_le_succ hroom)
    by_cases hdone : c.remaining - sectorSize * fs.sectorsPerCluster.toNat = 0
    · rw [copyClusters_of_done left _ _ hdone] at ih'
      rw [if_pos hdone]
      exact ⟨fun h => ih'.1 h.2.2, fun h => ih'.2 fun hs => h ⟨hin, hseen, hs⟩⟩
    · rw [if_neg hdone, readFatEntry_inRange hg hr hin]
      dsimp only
      by_cases hend : nextCluster fs device cluster ≥ fat32Eoc ∨ nextCluster fs device cluster < 2 ∨
          nextCluster fs device cluster = fat32BadCluster
      · rw [if_pos hend]
        refine ⟨fun h => ?_, fun _ => rfl⟩
        have hsound := h.2.2
        rw [clustersFor_step hg hdone, clusterChain_succ, sound_cons] at hsound
        exact absurd hsound.1 (not_inRange_of_end hg hend)
      · rw [if_neg hend]
        exact ⟨fun h => ih'.1 h.2.2, fun h => ih'.2 fun hs => h ⟨hin, hseen, hs⟩⟩

/-! ## Finding -/

/-- A record the search goes past: it does not end the directory, and if it names a file, the
    name is not empty and not the one that is looked for. -/
def Skipped (path : List UInt8) (record : Sector) : Prop :=
  record 0 ≠ 0 ∧ (namesFile record = true →
    1 < (shortName record).length ∧ pathMatches path (shortName record) = false)

/-- A record of the file that is looked for. -/
def Matching (path : List UInt8) (record : Sector) : Prop :=
  record 0 ≠ 0 ∧ namesFile record = true ∧ 1 < (shortName record).length ∧
    pathMatches path (shortName record) = true

/-- The directory records in `count` sectors from `start` on. -/
def recordsFrom (device : BlockDevice) (start count : Nat) : List Sector :=
  (List.range count).flatMap fun k => sectorRecords (contentOf device (start + k))

/-- The directory records of a cluster. -/
def clusterRecords (fs : Fat32State) (device : BlockDevice) (cluster : UInt32) : List Sector :=
  recordsFrom device (firstSectorOf fs cluster) fs.sectorsPerCluster.toNat

/-- The first matching entry of the root directory: a matching record in the first clusters of
    its chain, with records before it that the search goes past. -/
def FirstMatch (fs : Fat32State) (device : BlockDevice) (path : List UInt8) (record : Sector) :
    Prop :=
  ∃ count ≤ maxDirectoryClusters,
    (∀ cluster ∈ clusterChain fs device fs.rootCluster count, InRange fs cluster) ∧
    ∃ before after,
      (clusterChain fs device fs.rootCluster count).flatMap (clusterRecords fs device) =
        before ++ record :: after ∧
      (∀ r ∈ before, Skipped path r) ∧ Matching path record

theorem listRecords_find {before after : List Sector} (hbefore : ∀ r ∈ before, Skipped path r)
    (hrecord : Matching path record) :
    ((listRecords (before ++ record :: after)).live.find? fun r => pathMatches path (shortName r)) =
      some record := by
  induction before with
  | nil =>
    obtain ⟨hne, hfile, hlen, hsame⟩ := hrecord
    rw [List.nil_append, listRecords, if_neg hne, if_pos hfile, if_neg (Nat.not_le.mpr hlen)]
    exact List.find?_cons_of_pos hsame
  | cons r before ih =>
    obtain ⟨⟨hne, hname⟩, hrest⟩ := List.forall_mem_cons.mp hbefore
    rw [List.cons_append, listRecords, if_neg hne]
    split
    · next hfile =>
      obtain ⟨hlen, hdiff⟩ := hname hfile
      rw [if_neg (Nat.not_le.mpr hlen), List.find?_cons_of_neg (by simp [hdiff])]
      exact ih hrest
    · exact ih hrest

theorem recordsFrom_succ (device : BlockDevice) (start count : Nat) :
    recordsFrom device start (count + 1) =
      sectorRecords (contentOf device start) ++ recordsFrom device (start + 1) count := by
  unfold recordsFrom
  simp only [List.range_succ_eq_map, List.flatMap_cons, List.flatMap_map, Nat.add_zero,
    Nat.succ_eq_add_one, Nat.add_right_comm start 1, Nat.add_assoc]

section

variable (hg : Geometry fs device)

include hg

section

variable (hr : Reliable device)

include hr

theorem listSectors_eq (first : UInt64) (left offset : Nat)
    (hin : first.toNat + offset + left ≤ device.sectorCount.toNat) :
    listSectors device first left offset =
      listRecords (recordsFrom device (first.toNat + offset) left) := by
  induction left generalizing offset with
  | zero => rfl
  | succ n ih =>
    have hcount := device.sectorCount.toNat_lt
    have hsector : (first + UInt64.ofNat offset).toNat = first.toNat + offset := by
      rw [UInt64.toNat_add, UInt64.toNat_ofNat']
      omega
    unfold listSectors
    rw [readSector_ok hr hg.has_read (by omega), hsector, recordsFrom_succ, listRecords_append]
    dsimp only
    rw [ih _ (by omega), Nat.add_assoc]

/-- A cluster in range: its records, and what its entry of the FAT leads to. -/
theorem listClusters_inRange (hin : InRange fs cluster) (left : Nat) :
    ∃ rest, listClusters fs device (left + 1) cluster =
        (listRecords (clusterRecords fs device cluster)).andThen rest ∧
      (InRange fs (nextCluster fs device cluster) →
        rest = listClusters fs device left (nextCluster fs device cluster)) := by
  have hlast := firstSectorOf_le hg hin
  have hcount := hg.total_le
  have hfirst := firstSectorOf_toNat hg hin
  rw [listClusters, clusterToSector_inRange hg hin]
  dsimp only
  rw [listSectors_eq hg hr _ _ _ (by omega), hfirst, readFatEntry_inRange hg hr hin]
  refine ⟨_, rfl, fun hnext => ?_⟩
  dsimp only
  rw [if_neg fun h => not_inRange_of_end hg (Or.inl h) hnext,
    if_neg fun h => not_inRange_of_end hg (Or.inr h) hnext]

/-- A listing starts with the records of the first clusters of the chain. -/
theorem listClusters_chain (count left : Nat) (cluster : UInt32) (hroom : count ≤ left)
    (hin : ∀ c ∈ clusterChain fs device cluster count, InRange fs c) :
    ∃ rest, listClusters fs device left cluster =
      (listRecords ((clusterChain fs device cluster count).flatMap
        (clusterRecords fs device))).andThen rest := by
  induction count generalizing left cluster with
  | zero => exact ⟨_, rfl⟩
  | succ count ih =>
    obtain ⟨left, rfl⟩ : ∃ n, left = n + 1 := ⟨left - 1, by omega⟩
    rw [clusterChain_succ] at hin ⊢
    rw [List.flatMap_cons, listRecords_append]
    obtain ⟨hfirst, hchain⟩ := List.forall_mem_cons.mp hin
    obtain ⟨rest, hrest, hnext⟩ := listClusters_inRange hg hr hfirst left
    rw [hrest]
    cases count with
    | zero => exact ⟨rest, by rw [Listing.andThen_assoc]; rfl⟩
    | succ n =>
      obtain ⟨rest', hrest'⟩ := ih left (nextCluster fs device cluster) (by omega) hchain
      rw [clusterChain_succ] at hchain
      rw [hnext (hchain _ List.mem_cons_self), hrest']
      exact ⟨rest', by rw [Listing.andThen_assoc]⟩

theorem listRoot_find (h : FirstMatch fs device path record) :
    ((listRoot fs device).live.find? fun r => pathMatches path (shortName r)) = some record := by
  obtain ⟨count, hroom, hin, before, after, hsplit, hbefore, hrecord⟩ := h
  obtain ⟨rest, hrest⟩ := listClusters_chain hg hr count _ _ hroom hin
  rw [listRoot, hrest, hsplit]
  exact find_andThen (listRecords_find hbefore hrecord) rest

end

/-! ## Reading a file -/

theorem clustersFor_le (h : size ≤ maxRead) : clustersFor fs size ≤ maxFileClusters := by
  have hpos := hg.spc_pos
  have hunit : sectorSize ≤ sectorSize * fs.sectorsPerCluster.toNat :=
    Nat.le_mul_of_pos_right _ hpos
  unfold clustersFor maxFileClusters
  rw [← Nat.lt_succ_iff, Nat.div_lt_iff_lt_mul (by unfold sectorSize at hunit ⊢; omega)]
  unfold maxRead at h
  unfold sectorSize at hunit ⊢
  omega

end

theorem mount_pointer {state pointer : PointerShape} {stateSize : UInt64}
    (h : mount state stateSize pointer device = .ok fs) : state = .fine := by
  by_contra hbad
  unfold mount at h
  rw [if_pos (Or.inl hbad)] at h
  cases h

theorem readFile_found {state pointer : PointerShape} {stateSize : UInt64}
    {pathPointer : Option (Nat → UInt8)} {pathLength : UInt64} (hr : Reliable device)
    (hmount : mount state stateSize pointer device = .ok fs)
    (hpath : checkedPath pathPointer pathLength = some path) (hvalid : validRootPath path = true)
    (hfirst : FirstMatch fs device path record) (output : Bool) (outputCapacity : UInt64) :
    readFile state fs pointer device pathPointer pathLength output outputCapacity true =
      readEntry fs device (foundEntry record) output outputCapacity := by
  obtain ⟨hg, hdevice⟩ := mount_geometry hmount
  obtain rfl := mount_pointer hmount
  obtain rfl := validDevice_pointer hdevice
  rw [readFile_eq hg.state_valid hdevice hpath hvalid, listRoot_find hg hr hfirst]

theorem toUInt64_ne_zero {x : UInt32} (h : x.toNat ≠ 0) : ¬ x.toUInt64 = 0 := by
  intro hz
  rw [← UInt64.toNat_inj, UInt32.toNat_toUInt64] at hz
  exact h hz

/-- A found entry of a regular file with enough room: empty, or copied along its chain. -/
theorem readEntry_eq (hregular : found.attributes &&& 0x10 = 0)
    (hsize : found.fileSize.toNat ≤ maxRead)
    (hcapacity : found.fileSize.toNat ≤ outputCapacity.toNat) (hne : found.fileSize.toNat ≠ 0)
    (hfirst : 2 ≤ found.firstCluster) :
    readEntry fs device found true outputCapacity =
      ⟨(copyClusters fs device maxFileClusters found.firstCluster []
          ⟨found.fileSize.toNat, []⟩).2, some found.fileSize.toUInt64,
        (copyClusters fs device maxFileClusters found.firstCluster []
          ⟨found.fileSize.toNat, []⟩).1.output⟩ := by
  have hroom : ¬ (found.fileSize.toUInt64.toNat > maxRead ∨
      outputCapacity < found.fileSize.toUInt64) := by
    rw [UInt64.lt_iff_toNat_lt, UInt32.toNat_toUInt64]
    omega
  have hsome := toUInt64_ne_zero hne
  have hcluster : ¬ (true = false ∨ found.firstCluster < 2) := by
    rw [UInt32.lt_iff_toNat_lt]
    rw [UInt32.le_iff_toNat_le] at hfirst
    simp only [Bool.true_eq_false, false_or]
    omega
  unfold readEntry
  rw [if_neg (not_not.mpr hregular)]
  dsimp only
  rw [if_neg hroom, if_neg hsome, if_neg hcluster, UInt32.toNat_toUInt64]

theorem readEntry_empty (hregular : found.attributes &&& 0x10 = 0)
    (hempty : found.fileSize.toNat = 0) :
    readEntry fs device found true outputCapacity = ⟨.ok, some found.fileSize.toUInt64, []⟩ := by
  have hzero : found.fileSize.toUInt64 = 0 := by
    rw [← UInt64.toNat_inj, UInt32.toNat_toUInt64]
    exact hempty
  have hroom : ¬ ((0 : UInt64).toNat > maxRead ∨ outputCapacity < 0) := by
    rw [UInt64.lt_iff_toNat_lt]
    simp
  unfold readEntry
  rw [if_neg (not_not.mpr hregular), hzero]
  dsimp only
  rw [if_neg hroom, if_pos rfl]

theorem readEntry_noCluster (hregular : found.attributes &&& 0x10 = 0)
    (hne : found.fileSize.toNat ≠ 0) (hfirst : found.firstCluster < 2) :
    (readEntry fs device found true outputCapacity).status ≠ .ok := by
  have hsome := toUInt64_ne_zero hne
  unfold readEntry
  rw [if_neg (not_not.mpr hregular)]
  dsimp only
  rw [if_neg hsome, if_pos (Or.inr hfirst)]
  split
  · simp
  · simp

/-- A regular file of at most 4096 bytes that fits the caller's buffer is read whole, along the
    chain its directory entry starts, or its chain is broken and the read says so. -/
theorem readFile_returns_file (device : BlockDevice) (fs : Fat32State)
    (state pointer : PointerShape) (stateSize : UInt64) (pathPointer : Option (Nat → UInt8))
    (pathLength outputCapacity : UInt64) (path : List UInt8) (record : Sector)
    (hr : Reliable device) (hmount : mount state stateSize pointer device = .ok fs)
    (hpath : checkedPath pathPointer pathLength = some path) (hvalid : validRootPath path = true)
    (hfirst : FirstMatch fs device path record)
    (hregular : (foundEntry record).attributes &&& 0x10 = 0)
    (hsize : (foundEntry record).fileSize.toNat ≤ maxRead)
    (hcapacity : (foundEntry record).fileSize.toNat ≤ outputCapacity.toNat) :
    let size := (foundEntry record).fileSize.toNat
    let first := (foundEntry record).firstCluster
    let chain := clusterChain fs device first (clustersFor fs size)
    let sound := (∀ cluster ∈ chain, InRange fs cluster) ∧ chain.Nodup
    let result := readFile state fs pointer device pathPointer pathLength true outputCapacity true
    (result.status = .ok ↔ size = 0 ∨ sound) ∧
      (result.status = .ok → result.outputLength = some (foundEntry record).fileSize.toUInt64 ∧
        result.output = (chain.flatMap (clusterData fs device)).take size) ∧
      (2 ≤ first → size ≠ 0 → ¬ sound → result.status = .corrupt) := by
  intro size first chain sound result
  obtain ⟨hg, _⟩ := mount_geometry hmount
  have hresult : result = readEntry fs device (foundEntry record) true outputCapacity :=
    readFile_found hr hmount hpath hvalid hfirst true outputCapacity
  by_cases hempty : size = 0
  · have hread : result = ⟨.ok, some (foundEntry record).fileSize.toUInt64, []⟩ := by
      rw [hresult, readEntry_empty hregular hempty]
    rw [hread]
    refine ⟨by simp [hempty], fun _ => ⟨rfl, ?_⟩, fun _ hne => absurd hempty hne⟩
    rw [hempty, List.take_zero]
  have hchain : chain = first :: clusterChain fs device (nextCluster fs device first)
      (clustersFor fs (size - sectorSize * fs.sectorsPerCluster.toNat)) := by
    rw [← clusterChain_succ, ← clustersFor_step hg hempty]
  by_cases hlow : first < 2
  · -- the first cluster is no cluster: the chain is not sound and the read is refused
    have hbad : ¬ sound := by
      rintro ⟨hin, _⟩
      have hfirst : InRange fs first := hin first (by rw [hchain]; exact List.mem_cons_self ..)
      exact not_inRange_of_end hg (Or.inr (Or.inl hlow)) hfirst
    have hstatus : result.status ≠ .ok := by
      rw [hresult]
      exact readEntry_noCluster hregular hempty hlow
    refine ⟨by simp [hempty, hbad, hstatus], fun h => absurd h hstatus, fun hge => ?_⟩
    exact absurd hlow (UInt32.not_lt.mpr hge)
  have hread : result = ⟨(copyClusters fs device maxFileClusters first [] ⟨size, []⟩).2,
      some (foundEntry record).fileSize.toUInt64,
      (copyClusters fs device maxFileClusters first [] ⟨size, []⟩).1.output⟩ := by
    rw [hresult, readEntry_eq hregular hsize hcapacity hempty (UInt32.not_lt.mp hlow)]
  obtain ⟨hgood, hbroken⟩ :=
    copyClusters_spec hg hr maxFileClusters first [] ⟨size, []⟩ (clustersFor_le hg hsize)
  rw [sound_nil] at hgood hbroken
  by_cases hsound : sound
  · rw [hread, hgood hsound]
    exact ⟨by simp [hsound], fun _ => ⟨rfl, List.nil_append _⟩, fun _ _ h => absurd hsound h⟩
  · rw [hread, hbroken hsound]
    exact ⟨by simp [hempty, hsound], by simp, fun _ _ _ => rfl⟩

def sampleRecord : Sector := recordAt (contentOf sampleDevice 513) 1

theorem sampleDevice_reliable : Reliable sampleDevice := fun _ _ => ⟨_, rfl⟩

theorem sample_records : clusterRecords sampleState sampleDevice 2 =
    [recordAt (contentOf sampleDevice 513) 0] ++ sampleRecord ::
      (List.range 14).map fun slot => recordAt (contentOf sampleDevice 513) (slot + 2) := rfl

theorem samplePath_firstMatch : FirstMatch sampleState sampleDevice samplePath sampleRecord := by
  have hchain : clusterChain sampleState sampleDevice sampleState.rootCluster 1 = [2] := rfl
  have hrecords := sample_records
  rw [← List.flatMap_singleton (clusterRecords sampleState sampleDevice), ← hchain] at hrecords
  refine ⟨1, by decide, ?_, _, _, hrecords, ?_, ?_⟩
  · rw [hchain, List.forall_mem_singleton]
    decide
  · rw [List.forall_mem_singleton]
    unfold Skipped
    decide +kernel
  · unfold Matching
    decide +kernel

theorem sample_chain : clusterChain sampleState sampleDevice (foundEntry sampleRecord).firstCluster
    (clustersFor sampleState (foundEntry sampleRecord).fileSize.toNat) = [3, 4] := by
  decide +kernel

theorem sample_chain_sound : Sound sampleState [] [3, 4] := by
  rw [sound_nil, List.forall_mem_cons, List.forall_mem_singleton]
  decide

theorem readFile_returns_file_twoClusters :
    mount .fine 64 .fine sampleDevice = .ok sampleState ∧
      FirstMatch sampleState sampleDevice samplePath sampleRecord ∧
      (readFile .fine sampleState .fine sampleDevice (some fun i => samplePath.getD i 0) 10 true
        600 true).status = .ok :=
  ⟨sampleDevice_mounts, samplePath_firstMatch,
    (readFile_returns_file sampleDevice sampleState .fine .fine 64 _ 10 600 samplePath sampleRecord
      sampleDevice_reliable sampleDevice_mounts (by decide +kernel) (by decide +kernel)
      samplePath_firstMatch (by decide +kernel) (by decide +kernel) (by decide +kernel)).1.mpr
      (Or.inr (by
        rw [sample_chain]
        exact sound_nil.mp sample_chain_sound))⟩

end ArgusOs.Fat32
