/-
  The FAT32 reader: `rust_fat32.rs`.

  A block device answers each read of a sector with its 512 bytes or fails. A sector is a
  function from offsets to bytes; a directory record is the part of it from a multiple of 32
  on. `mount` turns the boot sector into the geometry the other calls use.

  The loops over clusters carry the code's own bounds (4096 clusters of the root directory,
  eight of a file) as their recursion, so every call returns.
-/
import ArgusOs.Lib.Bytes

namespace ArgusOs.Fat32

open Lib

def maxPath : Nat := 48
def maxRead : Nat := 4096
def sectorSize : Nat := 512
def directoryEntriesPerSector : Nat := 16
def maxDirectoryClusters : Nat := 4096
def maxFileClusters : Nat := 8
def fat32MinClusters : UInt64 := 65525
def fat32MaxClusters : UInt64 := 0x0FFFFFF5
def fat32Eoc : UInt32 := 0x0FFFFFF8
def fat32BadCluster : UInt32 := 0x0FFFFFF7
def fatStateMagic : UInt64 := 0x4152475553464154
/-- `size_of::<Fat32State>()`. -/
def fatStateBytes : UInt64 := 64

inductive Status where
  | ok
  | notFound
  | invalid
  | unsupported
  | corrupt
  | ioError
  | bufferTooSmall
  deriving DecidableEq, Repr

/-! ## The device -/

abbrev Sector := Nat → UInt8

/-- `BlockDeviceV1`: the fields that are checked, and what a read of a sector gives. `hasRead`
    says whether there is a read function. -/
structure BlockDevice where
  abiVersion : UInt32
  structSize : UInt32
  sectorSize : UInt32
  reserved : UInt32
  sectorCount : UInt64
  hasRead : Bool
  read : UInt64 → Option Sector

/-- A pointer to a structure: null, misaligned or fine. -/
inductive PointerShape where
  | null
  | misaligned
  | fine
  deriving DecidableEq, Repr

def validDevice (pointer : PointerShape) (device : BlockDevice) : Bool :=
  pointer = .fine ∧ device.abiVersion = 1 ∧ device.structSize = 64 ∧ device.sectorSize = 512 ∧
    device.reserved = 0 ∧ device.sectorCount ≠ 0 ∧ device.hasRead = true

def readSector (device : BlockDevice) (sector : UInt64) : Except Status Sector :=
  if sector ≥ device.sectorCount then .error .ioError
  else if device.hasRead = false then .error .ioError
  else
    match device.read sector with
    | some bytes => .ok bytes
    | none => .error .ioError

/-! ## Numbers -/

def checkedAdd (left right : UInt64) : Option UInt64 :=
  if left > 0xFFFFFFFFFFFFFFFF - right then none else some (left + right)

def checkedMul (left right : UInt64) : Option UInt64 :=
  if left ≠ 0 ∧ right > 0xFFFFFFFFFFFFFFFF / left then none else some (left * right)

def readU16 (bytes : Sector) (offset : Nat) : UInt16 :=
  (bytes offset).toUInt16 ||| ((bytes (offset + 1)).toUInt16 <<< 8)

def readU32 (bytes : Sector) (offset : Nat) : UInt32 :=
  (bytes offset).toUInt32 ||| ((bytes (offset + 1)).toUInt32 <<< 8) |||
    ((bytes (offset + 2)).toUInt32 <<< 16) ||| ((bytes (offset + 3)).toUInt32 <<< 24)

def isPowerOfTwo (x : UInt32) : Bool := x ≠ 0 ∧ x &&& (x - 1) = 0

/-! ## Mounting -/

structure Fat32State where
  magic : UInt64
  bytesPerSector : UInt32
  sectorsPerCluster : UInt32
  reservedSectors : UInt32
  fatCount : UInt32
  fatSize : UInt64
  totalSectors : UInt64
  rootCluster : UInt32
  activeFat : UInt32
  firstDataSector : UInt64
  dataClusters : UInt64
  deriving DecidableEq

variable (fs : Fat32State)

def validState : Bool :=
  fs.magic = fatStateMagic ∧ fs.bytesPerSector = 512 ∧ fs.sectorsPerCluster ≠ 0 ∧
    fs.sectorsPerCluster ≤ 128 ∧ isPowerOfTwo fs.sectorsPerCluster ∧ fs.reservedSectors ≠ 0 ∧
    (fs.fatCount = 1 ∨ fs.fatCount = 2) ∧ fs.activeFat < fs.fatCount ∧ fs.fatSize ≠ 0 ∧
    fs.rootCluster ≥ 2 ∧ fs.firstDataSector < fs.totalSectors ∧
    fs.dataClusters ≥ fat32MinClusters ∧ fs.dataClusters < fat32MaxClusters

/-- The fields of the boot sector, each in the width `mount` keeps it in. -/
structure BootSector where
  bytesPerSector : UInt32
  sectorsPerCluster : UInt32
  reservedSectors : UInt32
  fatCount : UInt32
  rootEntries : UInt16
  totalSectors16 : UInt16
  fatSize16 : UInt16
  totalSectors : UInt64
  fatSize : UInt64
  extendedFlags : UInt16
  version : UInt16
  rootCluster : UInt32

def readBootSector (sector : Sector) : BootSector where
  bytesPerSector := (readU16 sector 11).toUInt32
  sectorsPerCluster := (sector 13).toUInt32
  reservedSectors := (readU16 sector 14).toUInt32
  fatCount := (sector 16).toUInt32
  rootEntries := readU16 sector 17
  totalSectors16 := readU16 sector 19
  fatSize16 := readU16 sector 22
  totalSectors := (readU32 sector 32).toUInt64
  fatSize := (readU32 sector 36).toUInt64
  extendedFlags := readU16 sector 40
  version := readU16 sector 42
  rootCluster := readU32 sector 44

variable (b : BootSector)

def BootSector.activeFat : UInt32 :=
  if b.extendedFlags &&& 0x0080 ≠ 0 then (b.extendedFlags &&& 0x000F).toUInt32 else 0

/-- The values that make a volume unsupported. -/
def BootSector.unsupported : Bool :=
  b.bytesPerSector ≠ 512 ∨ b.sectorsPerCluster = 0 ∨ b.sectorsPerCluster > 128 ∨
    isPowerOfTwo b.sectorsPerCluster = false ∨ b.reservedSectors = 0 ∨
    (b.fatCount ≠ 1 ∧ b.fatCount ≠ 2) ∨ b.rootEntries ≠ 0 ∨ b.totalSectors16 ≠ 0 ∨
    b.fatSize16 ≠ 0 ∨ b.totalSectors = 0 ∨ b.fatSize = 0 ∨ b.activeFat ≥ b.fatCount ∨
    b.version ≠ 0 ∨ b.rootCluster < 2

/-- The state written, from the two numbers that are computed. -/
def BootSector.state (firstDataSector dataClusters : UInt64) : Fat32State where
  magic := fatStateMagic
  bytesPerSector := b.bytesPerSector
  sectorsPerCluster := b.sectorsPerCluster
  reservedSectors := b.reservedSectors
  fatCount := b.fatCount
  fatSize := b.fatSize
  totalSectors := b.totalSectors
  rootCluster := b.rootCluster
  activeFat := b.activeFat
  firstDataSector := firstDataSector
  dataClusters := dataClusters

/-- The clusters the data area has room for. -/
def BootSector.clustersFrom (firstDataSector : UInt64) : UInt64 :=
  (b.totalSectors - firstDataSector) / b.sectorsPerCluster.toUInt64

/-- The checks on the number of clusters. -/
def BootSector.checkClusters (firstDataSector dataClusters : UInt64) :
    Except Status Fat32State :=
  if ¬ (fat32MinClusters ≤ dataClusters ∧ dataClusters < fat32MaxClusters) ∨
      b.rootCluster.toUInt64 ≥ dataClusters + 2 then .error .unsupported
  else
    match checkedMul b.fatSize 512 with
    | none => .error .corrupt
    | some fatBytes =>
      if fatBytes / 4 < dataClusters + 2 then .error .corrupt
      else .ok (b.state firstDataSector dataClusters)

/-- Where the data area starts, if that does not overflow. -/
def BootSector.dataStart : Option UInt64 :=
  (checkedMul b.fatCount.toUInt64 b.fatSize).bind (checkedAdd b.reservedSectors.toUInt64)

/-- The layout a boot sector describes, once its fields are supported. -/
def BootSector.layout (sectorCount : UInt64) : Except Status Fat32State :=
  match b.dataStart with
  | none => .error .corrupt
  | some firstDataSector =>
    if firstDataSector ≥ b.totalSectors ∨ b.totalSectors > sectorCount then .error .corrupt
    else b.checkClusters firstDataSector (b.clustersFrom firstDataSector)

variable (state : PointerShape)

/-- `mount`: the state written on success. -/
def mount (stateSize : UInt64) (pointer : PointerShape)
    (device : BlockDevice) : Except Status Fat32State :=
  if state ≠ .fine ∨ stateSize < fatStateBytes ∨ validDevice pointer device = false then
    .error .invalid
  else
    match readSector device 0 with
    | .error _ => .error .ioError
    | .ok sector =>
      if readU16 sector 510 ≠ 0xAA55 then .error .corrupt
      else if (readBootSector sector).unsupported then .error .unsupported
      else (readBootSector sector).layout device.sectorCount

/-- `state_ref`. -/
def stateRef (fs : Fat32State) : Option Fat32State :=
  if state ≠ .fine then none else if validState fs then some fs else none

/-! ## Clusters -/

def clusterToSector (cluster : UInt32) : Option UInt64 :=
  if cluster < 2 ∨ cluster.toUInt64 ≥ fs.dataClusters + 2 then none
  else
    (checkedMul (cluster - 2).toUInt64 fs.sectorsPerCluster.toUInt64).bind fun relative =>
    (checkedAdd fs.firstDataSector relative).bind fun sector =>
    (checkedAdd sector fs.sectorsPerCluster.toUInt64).bind fun last =>
    if last ≤ fs.totalSectors then some sector else none

/-- `let Some(..) = value else { return CORRUPT }`. -/
def orCorrupt {α : Type} (value : Option α) : Except Status α :=
  match value with
  | some a => .ok a
  | none => .error .corrupt

def readFatEntry (device : BlockDevice) (cluster : UInt32) : Except Status UInt32 :=
  orCorrupt (checkedMul cluster.toUInt64 4) >>= fun byteOffset =>
  if byteOffset / 512 ≥ fs.fatSize then .error .corrupt
  else
    orCorrupt (checkedMul fs.fatSize fs.activeFat.toUInt64) >>= fun activeOffset =>
    orCorrupt (checkedAdd fs.reservedSectors.toUInt64 activeOffset) >>= fun fatStart =>
    orCorrupt (checkedAdd fatStart (byteOffset / 512)) >>= fun fatSector =>
    readSector device fatSector >>= fun sector =>
    .ok (readU32 sector (byteOffset % 512).toNat &&& 0x0FFFFFFF)

/-! ## Directory records -/

/-- The record at a slot of a sector. -/
def recordAt (sector : Sector) (slot : Nat) : Sector := fun i => sector (slot * 32 + i)

/-- The length without the trailing blanks. -/
def trimLength (bytes : Nat → UInt8) : Nat → Nat
  | 0 => 0
  | n + 1 => if bytes n = 32 then trimLength bytes n else n + 1

def shortName (record : Sector) : List UInt8 :=
  let baseLength := trimLength record 8
  let extensionLength := trimLength (fun i => record (8 + i)) 3
  47 :: bytesOf record baseLength ++
    (if extensionLength ≠ 0 then 46 :: bytesOf (fun i => record (8 + i)) extensionLength else [])

def uppercase (byte : UInt8) : UInt8 := if 97 ≤ byte ∧ byte ≤ 122 then byte - 32 else byte

def pathMatches (path name : List UInt8) : Bool :=
  path.length = name.length ∧ path.map uppercase = name.map uppercase

/-- A record that names a file or directory: not deleted, no long-name part, no volume label. -/
def namesFile (record : Sector) : Bool :=
  record 0 ≠ 0xE5 ∧ record 0 ≠ 0x05 ∧ record 11 ≠ 0x0F ∧ record 11 &&& 0x08 = 0

structure FoundEntry where
  firstCluster : UInt32
  fileSize : UInt32
  attributes : UInt32
  deriving DecidableEq

def foundEntry (record : Sector) : FoundEntry where
  firstCluster := ((readU16 record 20).toUInt32 <<< 16) ||| (readU16 record 26).toUInt32
  fileSize := readU32 record 28
  attributes := (record 11).toUInt32

/-- What a scan looks for. -/
inductive Wanted where
  | index (requested : UInt64)
  | path (requested : List UInt8)

def Wanted.matched (wanted : Wanted) (name : List UInt8) (ordinal : UInt64) : Bool :=
  match wanted with
  | .index requested => ordinal = requested
  | .path requested => pathMatches requested name

/-- How a part of a scan ends: it goes on, it stops with a status, or it finds a record. -/
inductive Scan where
  | more (ordinal : UInt64)
  | stop (status : Status)
  | found (record : Sector)

def scanRecord (wanted : Wanted) (record : Sector) (ordinal : UInt64) : Scan :=
  if record 0 = 0 then .stop .notFound
  else if namesFile record then
    if (shortName record).length ≤ 1 then .stop .corrupt
    else if wanted.matched (shortName record) ordinal then .found record
    else .more (ordinal + 1)
  else .more ordinal

/-- The loop over the slots of a sector, as the records that are left. -/
def scanRecords (wanted : Wanted) : List Sector → UInt64 → Scan
  | [], ordinal => .more ordinal
  | record :: rest, ordinal =>
    match scanRecord wanted record ordinal with
    | .more ordinal => scanRecords wanted rest ordinal
    | .stop status => .stop status
    | .found record => .found record

/-- The records of a sector. -/
def sectorRecords (sector : Sector) : List Sector :=
  (List.range directoryEntriesPerSector).map (recordAt sector)

/-- The loop over the sectors of a directory cluster, `left` of them from `offset` on. -/
def scanSectors (device : BlockDevice) (wanted : Wanted) (firstSector : UInt64) :
    Nat → Nat → UInt64 → Scan
  | 0, _, ordinal => .more ordinal
  | left + 1, offset, ordinal =>
    match readSector device (firstSector + UInt64.ofNat offset) with
    | .error status => .stop status
    | .ok sector =>
      match scanRecords wanted (sectorRecords sector) ordinal with
      | .more ordinal => scanSectors device wanted firstSector left (offset + 1) ordinal
      | .stop status => .stop status
      | .found record => .found record

/-- The loop over the clusters of the root directory, `left` of them before it gives up. -/
def scanClusters (fs : Fat32State) (device : BlockDevice) (wanted : Wanted) :
    Nat → UInt32 → UInt64 → Except Status Sector
  | 0, _, _ => .error .corrupt
  | left + 1, cluster, ordinal =>
    match clusterToSector fs cluster with
    | none => .error .corrupt
    | some firstSector =>
      match scanSectors device wanted firstSector fs.sectorsPerCluster.toNat 0 ordinal with
      | .stop status => .error status
      | .found record => .ok record
      | .more ordinal =>
        match readFatEntry fs device cluster with
        | .error status => .error status
        | .ok next =>
          if next ≥ fat32Eoc then .error .notFound
          else if next < 2 ∨ next = fat32BadCluster then .error .corrupt
          else scanClusters fs device wanted left next ordinal

/-- `scan_root`, as the record it finds. -/
def scanRoot (device : BlockDevice) (wanted : Wanted) : Except Status Sector :=
  scanClusters fs device wanted maxDirectoryClusters fs.rootCluster 0

/-! ## Calls -/

/-- What `entry` answers and stores. -/
structure EntryResult where
  status : Status
  path : Option (List UInt8)
  pathLength : Option UInt64
  found : Option FoundEntry

/-- `entry`; the four flags say whether its output pointers are non-null. -/
def fat32Entry (fs : Fat32State) (pointer : PointerShape)
    (device : BlockDevice) (index : UInt64) (pathOutput : Bool) (pathCapacity : UInt64)
    (pathLength fileSize attributes : Bool) : EntryResult :=
  if pathOutput = false ∨ pathLength = false ∨ fileSize = false ∨ attributes = false ∨
      validDevice pointer device = false then ⟨.invalid, none, none, none⟩
  else
    match stateRef state fs with
    | none => ⟨.invalid, none, none, none⟩
    | some fs =>
      match scanRoot fs device (.index index) with
      | .error status => ⟨status, none, none, none⟩
      | .ok record =>
        let name := shortName record
        if pathCapacity < UInt64.ofNat name.length then
          ⟨.bufferTooSmall, none, some (UInt64.ofNat name.length), none⟩
        else ⟨.ok, some name, some (UInt64.ofNat name.length), some (foundEntry record)⟩

/-- `checked_input`. -/
def checkedPath (pointer : Option (Nat → UInt8)) (length : UInt64) : Option (List UInt8) :=
  match pointer with
  | none => none
  | some bytes => if length = 0 ∨ length.toNat > maxPath then none
    else some (bytesOf bytes length.toNat)

def validRootPath (path : List UInt8) : Bool :=
  if path.length < 2 ∨ path.getD 0 0 ≠ 47 then false
  else (path.drop 1).all fun byte => ¬ (byte = 47 ∨ byte = 92 ∨ ¬ (33 ≤ byte ∧ byte ≤ 126))

/-- What a read still has to copy, and what it has copied. -/
structure Copying where
  remaining : Nat
  output : List UInt8

/-- The loop over the sectors of a file cluster, `left` of them from `offset` on. -/
def copySectors (device : BlockDevice) (firstSector : UInt64) :
    Nat → Nat → Copying → Copying × Option Status
  | 0, _, c => (c, none)
  | left + 1, offset, c =>
    if c.remaining = 0 then (c, none)
    else
      match readSector device (firstSector + UInt64.ofNat offset) with
      | .error status => (c, some status)
      | .ok sector =>
        let copied := if c.remaining < sectorSize then c.remaining else sectorSize
        copySectors device firstSector left (offset + 1)
          ⟨c.remaining - copied, c.output ++ bytesOf sector copied⟩

/-- The loop over the clusters of a file, `left` of them before the table of clusters seen is
    full. -/
def copyClusters (fs : Fat32State) (device : BlockDevice) :
    Nat → UInt32 → List UInt32 → Copying → Copying × Status
  | 0, _, _, c => if c.remaining = 0 then (c, .ok) else (c, .corrupt)
  | left + 1, cluster, seen, c =>
    if c.remaining = 0 then (c, .ok)
    else if cluster ∈ seen then (c, .corrupt)
    else
      match clusterToSector fs cluster with
      | none => (c, .corrupt)
      | some firstSector =>
        match copySectors device firstSector fs.sectorsPerCluster.toNat 0 c with
        | (c, some status) => (c, status)
        | (c, none) =>
          if c.remaining = 0 then (c, .ok)
          else
            match readFatEntry fs device cluster with
            | .error status => (c, status)
            | .ok next =>
              if next ≥ fat32Eoc ∨ next < 2 ∨ next = fat32BadCluster then (c, .corrupt)
              else copyClusters fs device left next (seen ++ [cluster]) c

/-- What `read_file` answers, the length it reports and the bytes it has stored. -/
structure Reading where
  status : Status
  outputLength : Option UInt64
  output : List UInt8
  deriving DecidableEq

/-- The part of `read_file` after the directory entry has been found. -/
def readEntry (device : BlockDevice) (found : FoundEntry) (output : Bool)
    (outputCapacity : UInt64) : Reading :=
  if found.attributes &&& 0x10 ≠ 0 then ⟨.unsupported, none, []⟩
  else
    let fileSize := found.fileSize.toUInt64
    if fileSize.toNat > maxRead ∨ outputCapacity < fileSize then
      ⟨.bufferTooSmall, some fileSize, []⟩
    else if fileSize = 0 then ⟨.ok, some fileSize, []⟩
    else if output = false ∨ found.firstCluster < 2 then ⟨.invalid, some fileSize, []⟩
    else
      let (c, status) := copyClusters fs device maxFileClusters found.firstCluster []
        ⟨fileSize.toNat, []⟩
      ⟨status, some fileSize, c.output⟩

/-- `read_file`; `output` and `outputLength` say whether those pointers are non-null. -/
def readFile (fs : Fat32State) (pointer : PointerShape)
    (device : BlockDevice) (pathPointer : Option (Nat → UInt8)) (pathLength : UInt64)
    (output : Bool) (outputCapacity : UInt64) (outputLength : Bool) : Reading :=
  match checkedPath pathPointer pathLength with
  | none => ⟨.invalid, none, []⟩
  | some path =>
    if validRootPath path = false ∨ outputLength = false ∨ validDevice pointer device = false then
      ⟨.invalid, none, []⟩
    else
      match stateRef state fs with
      | none => ⟨.invalid, none, []⟩
      | some fs =>
        match scanRoot fs device (.path path) with
        | .error status => ⟨status, none, []⟩
        | .ok record => readEntry fs device (foundEntry record) output outputCapacity

end ArgusOs.Fat32
