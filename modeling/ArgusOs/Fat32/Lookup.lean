/-
  Looking a name up and listing the directory see the same entries.

  `entry` and `read_file` share one triple loop, `scan_root`, with two ways to stop. A
  `Listing` is what that loop goes through in any case: the live records in order, and the
  status it ends with if nothing stops it before. The search is then a search in that list
  (`scanRoot_index`, `scanRoot_path`): `entry` takes the record with a given number, `read_file`
  the first with the name. Nothing is assumed about the device but that it answers a sector
  always alike.

  `scanLoop` is the outer loop as the code has it, without a bound but for its own counter.
-/
import ArgusOs.Fat32.Geometry

namespace ArgusOs.Fat32

open Lib

/-! ## Listings -/

/-- The live records of a part of the directory, and the status if it ends there. -/
structure Listing where
  live : List Sector
  ending : Option Status

/-- A part and what follows it. -/
def Listing.andThen (first second : Listing) : Listing :=
  match first.ending with
  | some status => ⟨first.live, some status⟩
  | none => ⟨first.live ++ second.live, second.ending⟩

def listRecords : List Sector → Listing
  | [] => ⟨[], none⟩
  | record :: rest =>
    if record 0 = 0 then ⟨[], some .notFound⟩
    else if namesFile record then
      if (shortName record).length ≤ 1 then ⟨[], some .corrupt⟩
      else ⟨record :: (listRecords rest).live, (listRecords rest).ending⟩
    else listRecords rest

theorem Listing.andThen_assoc (first second third : Listing) :
    (first.andThen second).andThen third = first.andThen (second.andThen third) := by
  unfold Listing.andThen
  cases first.ending with
  | some status => rfl
  | none =>
    dsimp only
    cases second.ending with
    | some status => rfl
    | none => rw [List.append_assoc]

theorem find_andThen {test : Sector → Bool} {first : Listing} {record : Sector}
    (h : first.live.find? test = some record) (second : Listing) :
    (first.andThen second).live.find? test = some record := by
  unfold Listing.andThen
  cases first.ending with
  | some status => exact h
  | none =>
    rw [List.find?_append, h]
    rfl

theorem listRecords_append (xs ys : List Sector) :
    listRecords (xs ++ ys) = (listRecords xs).andThen (listRecords ys) := by
  induction xs with
  | nil => rfl
  | cons x xs ih =>
    rw [List.cons_append, listRecords, listRecords]
    split
    · rfl
    split
    · split
      · rfl
      · rw [ih]
        unfold Listing.andThen
        cases (listRecords xs).ending <;> rfl
    · exact ih

def listSectors (device : BlockDevice) (firstSector : UInt64) : Nat → Nat → Listing
  | 0, _ => ⟨[], none⟩
  | left + 1, offset =>
    match readSector device (firstSector + UInt64.ofNat offset) with
    | .error status => ⟨[], some status⟩
    | .ok sector =>
      (listRecords (sectorRecords sector)).andThen (listSectors device firstSector left
        (offset + 1))

def listClusters (fs : Fat32State) (device : BlockDevice) : Nat → UInt32 → Listing
  | 0, _ => ⟨[], some .corrupt⟩
  | left + 1, cluster =>
    match clusterToSector fs cluster with
    | none => ⟨[], some .corrupt⟩
    | some firstSector =>
      (listSectors device firstSector fs.sectorsPerCluster.toNat 0).andThen
        (match readFatEntry fs device cluster with
        | .error status => ⟨[], some status⟩
        | .ok next =>
          if next ≥ fat32Eoc then ⟨[], some .notFound⟩
          else if next < 2 ∨ next = fat32BadCluster then ⟨[], some .corrupt⟩
          else listClusters fs device left next)

def listRoot (fs : Fat32State) (device : BlockDevice) : Listing :=
  listClusters fs device maxDirectoryClusters fs.rootCluster

/-! ## Searching a listing -/

/-- The record a search takes from a list whose first record has the number `ordinal`. -/
def pick (wanted : Wanted) : List Sector → UInt64 → Option Sector
  | [], _ => none
  | record :: rest, ordinal =>
    if wanted.matched (shortName record) ordinal then some record
    else pick wanted rest (ordinal + 1)

def Listing.search (l : Listing) (wanted : Wanted) (ordinal : UInt64) : Scan :=
  match pick wanted l.live ordinal with
  | some record => .found record
  | none =>
    match l.ending with
    | some status => .stop status
    | none => .more (ordinal + UInt64.ofNat l.live.length)

/-- One part of a scan, and the next if it goes on. -/
def Scan.andThen (first : Scan) (second : UInt64 → Scan) : Scan :=
  match first with
  | .more ordinal => second ordinal
  | .stop status => .stop status
  | .found record => .found record

theorem ofNat_succ (n : Nat) (ordinal : UInt64) :
    ordinal + 1 + UInt64.ofNat n = ordinal + UInt64.ofNat (n + 1) := by
  rw [UInt64.ofNat_add, UInt64.add_assoc, UInt64.add_comm 1]
  rfl

theorem pick_append (wanted : Wanted) (xs ys : List Sector) (ordinal : UInt64) :
    pick wanted (xs ++ ys) ordinal =
      (pick wanted xs ordinal).or (pick wanted ys (ordinal + UInt64.ofNat xs.length)) := by
  induction xs generalizing ordinal with
  | nil =>
    rw [List.nil_append, List.length_nil, show UInt64.ofNat 0 = 0 from rfl, UInt64.add_zero]
    rfl
  | cons x xs ih =>
    rw [List.cons_append, pick, pick]
    split
    · rfl
    · rw [ih, List.length_cons, ofNat_succ]

theorem search_andThen (first second : Listing) (wanted : Wanted) (ordinal : UInt64) :
    (first.andThen second).search wanted ordinal =
      (first.search wanted ordinal).andThen (second.search wanted) := by
  unfold Listing.andThen
  cases hend : first.ending with
  | some status =>
    unfold Listing.search
    rw [hend]
    dsimp only
    cases pick wanted first.live ordinal <;> rfl
  | none =>
    unfold Listing.search
    rw [hend]
    dsimp only
    rw [pick_append]
    cases pick wanted first.live ordinal with
    | some record => rfl
    | none =>
      dsimp only [Option.or_none, Option.none_or, Scan.andThen]
      rw [List.length_append, UInt64.ofNat_add, UInt64.add_assoc]

theorem scanRecords_listing (wanted : Wanted) (records : List Sector) (ordinal : UInt64) :
    scanRecords wanted records ordinal = (listRecords records).search wanted ordinal := by
  induction records generalizing ordinal with
  | nil =>
    show Scan.more ordinal = Scan.more (ordinal + 0)
    rw [UInt64.add_zero]
  | cons record rest ih =>
    unfold scanRecords scanRecord listRecords
    by_cases hend : record 0 = 0
    · rw [if_pos hend, if_pos hend]
      rfl
    rw [if_neg hend, if_neg hend]
    by_cases hname : namesFile record = true
    · rw [if_pos hname, if_pos hname]
      by_cases hshort : (shortName record).length ≤ 1
      · rw [if_pos hshort, if_pos hshort]
        rfl
      rw [if_neg hshort, if_neg hshort]
      unfold Listing.search
      dsimp only
      rw [pick]
      by_cases hmatch : wanted.matched (shortName record) ordinal = true
      · rw [if_pos hmatch, if_pos hmatch]
      · rw [if_neg hmatch, if_neg hmatch]
        dsimp only
        rw [ih, List.length_cons, ← ofNat_succ]
        rfl
    · rw [if_neg hname, if_neg hname]
      exact ih ordinal

theorem scanSectors_listing (device : BlockDevice) (wanted : Wanted) (firstSector : UInt64)
    (left offset : Nat) (ordinal : UInt64) :
    scanSectors device wanted firstSector left offset ordinal =
      (listSectors device firstSector left offset).search wanted ordinal := by
  induction left generalizing offset ordinal with
  | zero =>
    show Scan.more ordinal = Scan.more (ordinal + 0)
    rw [UInt64.add_zero]
  | succ left ih =>
    unfold scanSectors listSectors
    cases readSector device (firstSector + UInt64.ofNat offset) with
    | error status => rfl
    | ok sector =>
      dsimp only
      rw [search_andThen, scanRecords_listing]
      cases (listRecords (sectorRecords sector)).search wanted ordinal with
      | more ordinal => exact ih (offset + 1) ordinal
      | stop status | found record => rfl

/-- A part that ends does so with a failure. -/
def Listing.Honest (l : Listing) : Prop := l.ending ≠ some .ok

theorem Listing.Honest.andThen {first second : Listing} (h1 : first.Honest) (h2 : second.Honest) :
    (first.andThen second).Honest := by
  unfold Listing.andThen
  cases hend : first.ending with
  | some status =>
    unfold Listing.Honest at h1
    rw [hend] at h1
    exact h1
  | none => exact h2

theorem listRecords_honest (records : List Sector) : (listRecords records).Honest := by
  induction records with
  | nil => exact fun h => by cases h
  | cons record rest ih =>
    unfold listRecords
    split
    · exact fun h => by cases h
    split
    · split
      · exact fun h => by cases h
      · exact ih
    · exact ih

theorem readSector_error {device : BlockDevice} {sector : UInt64} {status : Status}
    (h : readSector device sector = .error status) : status = .ioError := by
  unfold readSector at h
  split at h
  · cases h
    rfl
  split at h
  · cases h
    rfl
  split at h
  · cases h
  · cases h
    rfl

theorem listSectors_honest (device : BlockDevice) (firstSector : UInt64) (left offset : Nat) :
    (listSectors device firstSector left offset).Honest := by
  induction left generalizing offset with
  | zero => exact fun h => by cases h
  | succ left ih =>
    unfold listSectors
    cases hread : readSector device (firstSector + UInt64.ofNat offset) with
    | error status =>
      dsimp only
      rw [readSector_error hread]
      exact fun h => by cases h
    | ok sector => exact (listRecords_honest _).andThen (ih (offset + 1))

/-- Errors are failures. -/
def ErrorsFail {α : Type} (x : Except Status α) : Prop := x ≠ .error .ok

theorem ErrorsFail.bind {α β : Type} {x : Except Status α} {f : α → Except Status β}
    (hx : ErrorsFail x) (hf : ∀ a, ErrorsFail (f a)) : ErrorsFail (x >>= f) := by
  cases x with
  | ok a => exact hf a
  | error status =>
    intro hc
    change Except.error status = _ at hc
    rw [Except.error.injEq] at hc
    exact hx (by rw [hc])

theorem orCorrupt_errorsFail {α : Type} (value : Option α) : ErrorsFail (orCorrupt value) := by
  cases value <;> exact fun hc => by cases hc

theorem readSector_errorsFail (device : BlockDevice) (sector : UInt64) :
    ErrorsFail (readSector device sector) := by
  intro hc
  cases readSector_error hc

theorem readFatEntry_errorsFail (fs : Fat32State) (device : BlockDevice) (cluster : UInt32) :
    ErrorsFail (readFatEntry fs device cluster) := by
  unfold readFatEntry
  refine (orCorrupt_errorsFail _).bind fun byteOffset => ?_
  split
  · exact fun hc => by cases hc
  refine (orCorrupt_errorsFail _).bind fun _ => (orCorrupt_errorsFail _).bind fun _ =>
    (orCorrupt_errorsFail _).bind fun _ => (readSector_errorsFail device _).bind fun _ => ?_
  exact fun hc => by cases hc

/-- The whole directory ends, and with a failure. -/
theorem listClusters_ending (fs : Fat32State) (device : BlockDevice) (left : Nat)
    (cluster : UInt32) :
    ∃ status, (listClusters fs device left cluster).ending = some status ∧ status ≠ .ok := by
  induction left generalizing cluster with
  | zero => exact ⟨.corrupt, rfl, by decide⟩
  | succ left ih =>
    unfold listClusters
    cases clusterToSector fs cluster with
    | none => exact ⟨.corrupt, rfl, by decide⟩
    | some firstSector =>
      dsimp only
      have hfirst := listSectors_honest device firstSector fs.sectorsPerCluster.toNat 0
      unfold Listing.andThen
      cases hend : (listSectors device firstSector fs.sectorsPerCluster.toNat 0).ending with
      | some status =>
        refine ⟨status, rfl, fun hc => hfirst ?_⟩
        rw [hend, hc]
      | none =>
        dsimp only
        cases hnext : readFatEntry fs device cluster with
        | error status =>
          refine ⟨status, rfl, fun hc => readFatEntry_errorsFail fs device cluster ?_⟩
          rw [hnext, hc]
        | ok next =>
          dsimp only
          split
          · exact ⟨.notFound, rfl, by decide⟩
          split
          · exact ⟨.corrupt, rfl, by decide⟩
          · exact ih next

/-- How a search ends that went through the whole directory. -/
def Scan.result (scan : Scan) : Except Status Sector :=
  match scan with
  | .more _ => .error .corrupt
  | .stop status => .error status
  | .found record => .ok record

theorem scanClusters_listing (fs : Fat32State) (device : BlockDevice) (wanted : Wanted) (left : Nat)
    (cluster : UInt32) (ordinal : UInt64) :
    scanClusters fs device wanted left cluster ordinal =
      ((listClusters fs device left cluster).search wanted ordinal).result := by
  induction left generalizing cluster ordinal with
  | zero => rfl
  | succ left ih =>
    unfold scanClusters listClusters
    cases clusterToSector fs cluster with
    | none => rfl
    | some firstSector =>
      dsimp only
      rw [search_andThen, scanSectors_listing]
      cases (listSectors device firstSector fs.sectorsPerCluster.toNat 0).search wanted ordinal with
      | stop status | found record => rfl
      | more ordinal =>
        dsimp only [Scan.andThen]
        cases readFatEntry fs device cluster with
        | error status => rfl
        | ok next =>
          dsimp only
          split
          · rfl
          split
          · rfl
          · exact ih next ordinal

/-! ## The two searches -/

theorem pick_path (path : List UInt8) (xs : List Sector) (ordinal : UInt64) :
    pick (.path path) xs ordinal = xs.find? fun record => pathMatches path (shortName record) := by
  induction xs generalizing ordinal with
  | nil => rfl
  | cons x xs ih =>
    rw [pick, List.find?_cons, ih]
    show (if pathMatches path (shortName x) = true then _ else _) = _
    cases pathMatches path (shortName x) <;> rfl

/-- Numbers do not wrap around in a directory of this size. -/
theorem pick_index (index : UInt64) (xs : List Sector) (ordinal : UInt64)
    (hle : ordinal.toNat ≤ index.toNat) (hsize : ordinal.toNat + xs.length < 2 ^ 64) :
    pick (.index index) xs ordinal = xs[index.toNat - ordinal.toNat]? := by
  induction xs generalizing ordinal with
  | nil => rfl
  | cons x xs ih =>
    rw [List.length_cons] at hsize
    have hnext : (ordinal + 1).toNat = ordinal.toNat + 1 := by
      rw [UInt64.toNat_add, show (1 : UInt64).toNat = 1 from rfl]
      omega
    rw [pick]
    show (if decide (ordinal = index) = true then _ else _) = _
    by_cases heq : ordinal = index
    · rw [heq, Nat.sub_self]
      simp
    · have hlt : ordinal.toNat < index.toNat := by
        have : ordinal.toNat ≠ index.toNat := fun hc => heq (UInt64.toNat_inj.mp hc)
        omega
      rw [if_neg (by simpa using heq), ih (ordinal + 1) (by omega) (by omega), hnext,
        show index.toNat - ordinal.toNat = index.toNat - (ordinal.toNat + 1) + 1 by omega,
        List.getElem?_cons_succ]

theorem listRecords_length (records : List Sector) :
    (listRecords records).live.length ≤ records.length := by
  induction records with
  | nil => exact Nat.le_refl _
  | cons record rest ih =>
    unfold listRecords
    split
    · exact Nat.zero_le _
    split
    · split
      · exact Nat.zero_le _
      · exact Nat.succ_le_succ ih
    · exact Nat.le_succ_of_le ih

theorem andThen_length (first second : Listing) :
    (first.andThen second).live.length ≤ first.live.length + second.live.length := by
  unfold Listing.andThen
  cases first.ending with
  | some status => exact Nat.le_add_right ..
  | none => exact Nat.le_of_eq (List.length_append ..)

theorem listSectors_length (device : BlockDevice) (firstSector : UInt64) (left offset : Nat) :
    (listSectors device firstSector left offset).live.length ≤ left * 16 := by
  induction left generalizing offset with
  | zero => exact Nat.zero_le _
  | succ left ih =>
    unfold listSectors
    cases readSector device (firstSector + UInt64.ofNat offset) with
    | error status => exact Nat.zero_le _
    | ok sector =>
      have hfirst : (listRecords (sectorRecords sector)).live.length ≤ 16 :=
        listRecords_length (sectorRecords sector)
      have hboth := andThen_length (listRecords (sectorRecords sector))
        (listSectors device firstSector left (offset + 1))
      have hrest := ih (offset + 1)
      dsimp only
      omega

theorem listClusters_length (fs : Fat32State) (device : BlockDevice) (left : Nat)
    (cluster : UInt32) :
    (listClusters fs device left cluster).live.length ≤
      left * (fs.sectorsPerCluster.toNat * 16) := by
  induction left generalizing cluster with
  | zero => exact Nat.zero_le _
  | succ left ih =>
    rw [Nat.succ_mul]
    unfold listClusters
    cases clusterToSector fs cluster with
    | none => exact Nat.zero_le _
    | some firstSector =>
      dsimp only
      refine Nat.le_trans (andThen_length _ _) ?_
      rw [Nat.add_comm]
      refine Nat.add_le_add ?_ (listSectors_length device firstSector _ 0)
      cases readFatEntry fs device cluster with
      | error status => exact Nat.zero_le _
      | ok next =>
        dsimp only
        split
        · exact Nat.zero_le _
        split
        · exact Nat.zero_le _
        · exact ih next

section Root

variable {fs : Fat32State} {device : BlockDevice}

theorem listRoot_length (device : BlockDevice) (h : validState fs = true) :
    (listRoot fs device).live.length < 2 ^ 64 := by
  have hspc : fs.sectorsPerCluster.toNat ≤ 128 := by
    unfold validState at h
    rw [decide_eq_true_eq] at h
    exact UInt32.le_iff_toNat_le.mp h.2.2.2.1
  have hlen := listClusters_length fs device maxDirectoryClusters fs.rootCluster
  unfold maxDirectoryClusters at hlen
  unfold listRoot maxDirectoryClusters
  omega

theorem scanRoot_index (h : validState fs = true) (index : UInt64) :
    scanRoot fs device (.index index) =
      match (listRoot fs device).live[index.toNat]? with
      | some record => .ok record
      | none => .error ((listRoot fs device).ending.getD .corrupt) := by
  unfold scanRoot
  rw [scanClusters_listing]
  show ((listRoot fs device).search _ _).result = _
  have hpick := pick_index index (listRoot fs device).live 0 (Nat.zero_le _) (by
    have := listRoot_length device h
    rw [show (0 : UInt64).toNat = 0 from rfl]
    omega)
  rw [show index.toNat - (0 : UInt64).toNat = index.toNat from rfl] at hpick
  unfold Listing.search
  rw [hpick]
  cases (listRoot fs device).live[index.toNat]? with
  | some record => rfl
  | none => cases (listRoot fs device).ending <;> rfl

theorem scanRoot_path (path : List UInt8) :
    scanRoot fs device (.path path) =
      match (listRoot fs device).live.find? fun record => pathMatches path (shortName record) with
      | some record => .ok record
      | none => .error ((listRoot fs device).ending.getD .corrupt) := by
  unfold scanRoot
  rw [scanClusters_listing]
  show ((listRoot fs device).search _ _).result = _
  unfold Listing.search
  rw [pick_path]
  cases (listRoot fs device).live.find? fun record => pathMatches path (shortName record) with
  | some record => rfl
  | none => cases (listRoot fs device).ending <;> rfl

end Root

/-! ## The outer loop as it is written -/

/-- The variables of the loop over clusters. -/
structure ScanLoop where
  cluster : UInt32
  visited : UInt64
  ordinal : UInt64

/-- One turn: another one, or the result. -/
def scanTurn (fs : Fat32State) (device : BlockDevice) (wanted : Wanted) (s : ScanLoop) :
    ScanLoop ⊕ Except Status Sector :=
  if s.visited ≥ UInt64.ofNat maxDirectoryClusters then .inr (.error .corrupt)
  else
    match clusterToSector fs s.cluster with
    | none => .inr (.error .corrupt)
    | some firstSector =>
      match scanSectors device wanted firstSector fs.sectorsPerCluster.toNat 0 s.ordinal with
      | .stop status => .inr (.error status)
      | .found record => .inr (.ok record)
      | .more ordinal =>
        match readFatEntry fs device s.cluster with
        | .error status => .inr (.error status)
        | .ok next =>
          if next ≥ fat32Eoc then .inr (.error .notFound)
          else if next < 2 ∨ next = fat32BadCluster then .inr (.error .corrupt)
          else .inl ⟨next, s.visited + 1, ordinal⟩

/-- The result of the loop, if it ends within this number of turns. -/
def scanLoop (fs : Fat32State) (device : BlockDevice) (wanted : Wanted) :
    Nat → ScanLoop → Option (Except Status Sector)
  | 0, _ => none
  | turns + 1, s =>
    match scanTurn fs device wanted s with
    | .inr result => some result
    | .inl s => scanLoop fs device wanted turns s

/-- With `left` clusters to go the loop ends after that many turns, and one more to give up. -/
theorem scanLoop_eq (fs : Fat32State) (device : BlockDevice) (wanted : Wanted) (left : Nat)
    (s : ScanLoop) (h : s.visited.toNat + left = maxDirectoryClusters) :
    scanLoop fs device wanted (left + 1) s =
      some (scanClusters fs device wanted left s.cluster s.ordinal) := by
  have hlimit : (UInt64.ofNat maxDirectoryClusters).toNat = 4096 := by decide
  unfold maxDirectoryClusters at h
  induction left generalizing s with
  | zero =>
    have hfull : s.visited ≥ UInt64.ofNat maxDirectoryClusters := by
      rw [ge_iff_le, UInt64.le_iff_toNat_le, hlimit]
      omega
    unfold scanLoop scanTurn
    rw [if_pos hfull]
    rfl
  | succ left ih =>
    have hroom : ¬ s.visited ≥ UInt64.ofNat maxDirectoryClusters := by
      rw [ge_iff_le, UInt64.le_iff_toNat_le, hlimit]
      omega
    have hnext : (s.visited + 1).toNat = s.visited.toNat + 1 := by
      rw [UInt64.toNat_add, show (1 : UInt64).toNat = 1 from rfl]
      omega
    unfold scanLoop scanTurn scanClusters
    rw [if_neg hroom]
    cases clusterToSector fs s.cluster with
    | none => rfl
    | some firstSector =>
      dsimp only
      cases scanSectors device wanted firstSector fs.sectorsPerCluster.toNat 0 s.ordinal with
      | stop status | found record => rfl
      | more ordinal =>
        dsimp only
        cases readFatEntry fs device s.cluster with
        | error status => rfl
        | ok next =>
          dsimp only
          by_cases heoc : next ≥ fat32Eoc
          · rw [if_pos heoc, if_pos heoc]
          rw [if_neg heoc, if_neg heoc]
          by_cases hbad : next < 2 ∨ next = fat32BadCluster
          · rw [if_pos hbad, if_pos hbad]
          rw [if_neg hbad, if_neg hbad]
          exact ih ⟨next, s.visited + 1, ordinal⟩ (by dsimp only; omega)

/-! ## The calls -/

theorem trimLength_le (bytes : Nat → UInt8) (n : Nat) : trimLength bytes n ≤ n := by
  induction n with
  | zero => exact Nat.le_refl _
  | succ n ih =>
    unfold trimLength
    split
    · exact Nat.le_succ_of_le ih
    · exact Nat.le_refl _

/-- A slash, eight characters, a dot and three more. -/
theorem shortName_length (record : Sector) : (shortName record).length ≤ 13 := by
  have hbase := trimLength_le record 8
  have hext := trimLength_le (fun i => record (8 + i)) 3
  unfold shortName
  dsimp only
  split <;>
    simp only [List.length_append, List.length_cons, List.length_nil, bytesOf_length] <;> omega

section Calls

variable {fs : Fat32State} {device : BlockDevice} {state pointer : PointerShape}

/-- A call of `entry` with all its output pointers. -/
def entryCall (fs : Fat32State) (device : BlockDevice) (capacity : UInt64) (index : Nat) :
    EntryResult :=
  fat32Entry .fine fs .fine device (UInt64.ofNat index) true capacity true true true

/-- A call of `entry` answers with the record of that number, or with the ending. -/
theorem entryCall_eq (hvalid : validState fs = true) (hdevice : validDevice .fine device = true)
    {capacity : UInt64} (hcap : 13 ≤ capacity.toNat) {index : Nat} (hindex : index < 2 ^ 64) :
    entryCall fs device capacity index =
      match (listRoot fs device).live[index]? with
      | some record => ⟨.ok, some (shortName record), some (UInt64.ofNat (shortName record).length),
          some (foundEntry record)⟩
      | none => ⟨(listRoot fs device).ending.getD .corrupt, none, none, none⟩ := by
  have hnat : (UInt64.ofNat index).toNat = index := by
    rw [UInt64.toNat_ofNat']
    omega
  unfold entryCall fat32Entry stateRef
  rw [if_neg (by simp [hdevice]), if_neg (by simp), if_pos hvalid]
  dsimp only
  rw [scanRoot_index hvalid, hnat]
  cases (listRoot fs device).live[index]? with
  | none => rfl
  | some record =>
    have hlen := shortName_length record
    have hfits : ¬ capacity < UInt64.ofNat (shortName record).length := by
      rw [UInt64.lt_iff_toNat_lt, UInt64.toNat_ofNat']
      omega
    dsimp only
    rw [if_neg hfits]

theorem validDevice_pointer (h : validDevice pointer device = true) : pointer = .fine := by
  unfold validDevice at h
  rw [decide_eq_true_eq] at h
  exact h.1

theorem readFile_eq (hvalid : validState fs = true) (hdevice : validDevice .fine device = true)
    {pathPointer : Option (Nat → UInt8)} {pathLength : UInt64} {path : List UInt8}
    (hpath : checkedPath pathPointer pathLength = some path) (hroot : validRootPath path = true)
    (output : Bool) (outputCapacity : UInt64) :
    readFile .fine fs .fine device pathPointer pathLength output outputCapacity true =
      match (listRoot fs device).live.find? fun record => pathMatches path (shortName record) with
      | some record => readEntry fs device (foundEntry record) output outputCapacity
      | none => ⟨(listRoot fs device).ending.getD .corrupt, none, []⟩ := by
  unfold readFile stateRef
  rw [hpath]
  dsimp only
  rw [if_neg (by simp [hroot, hdevice]), if_neg (by simp), if_pos hvalid]
  dsimp only
  rw [scanRoot_path]
  cases (listRoot fs device).live.find? fun record => pathMatches path (shortName record) <;> rfl

end Calls

/-- The names are equal but for the case of ASCII letters. -/
def SameName (path name : List UInt8) : Prop := path.map uppercase = name.map uppercase

instance (path name : List UInt8) : Decidable (SameName path name) :=
  inferInstanceAs (Decidable (_ = _))

theorem pathMatches_iff (path name : List UInt8) :
    pathMatches path name = true ↔ SameName path name := by
  unfold pathMatches SameName
  rw [decide_eq_true_eq]
  constructor
  · exact fun h => h.2
  · intro h
    refine ⟨?_, h⟩
    have := congrArg List.length h
    rwa [List.length_map, List.length_map] at this

/-- The name a call of `entry` returned. -/
def EntryResult.name (r : EntryResult) : List UInt8 := r.path.getD []

/-- On a mounted volume `read_file` takes the first entry that the enumeration gives for the
    name, and without one it fails as the enumeration ends. The loop over the clusters ends
    after 4096 of them on every volume. -/
theorem lookup_agrees_with_enumeration (device : BlockDevice) (fs : Fat32State)
    (state pointer : PointerShape) (stateSize : UInt64)
    (hmount : mount state stateSize pointer device = .ok fs) (capacity : UInt64)
    (hcap : 13 ≤ capacity.toNat) (pathPointer : Option (Nat → UInt8)) (pathLength : UInt64)
    (path : List UInt8) (hpath : checkedPath pathPointer pathLength = some path)
    (hroot : validRootPath path = true) (output : Bool) (outputCapacity : UInt64) :
    (∃ count,
      (∀ i, i < count → (entryCall fs device capacity i).status = .ok) ∧
      (entryCall fs device capacity count).status ≠ .ok ∧
      (∀ i, i < count → SameName path (entryCall fs device capacity i).name →
        (∀ j, j < i → ¬ SameName path (entryCall fs device capacity j).name) →
        ∃ record, scanRoot fs device (.path path) = .ok record ∧
          (entryCall fs device capacity i).path = some (shortName record) ∧
          (entryCall fs device capacity i).found = some (foundEntry record) ∧
          readFile .fine fs .fine device pathPointer pathLength output outputCapacity true =
            readEntry fs device (foundEntry record) output outputCapacity) ∧
      ((∀ i, i < count → ¬ SameName path (entryCall fs device capacity i).name) →
        readFile .fine fs .fine device pathPointer pathLength output outputCapacity true =
          ⟨(entryCall fs device capacity count).status, none, []⟩)) ∧
    ∀ (fs : Fat32State) (device : BlockDevice) (wanted : Wanted),
      scanLoop fs device wanted (4096 + 1) ⟨fs.rootCluster, 0, 0⟩ =
        some (scanRoot fs device wanted) := by
  refine ⟨?_, fun fs device wanted => scanLoop_eq fs device wanted 4096 _ rfl⟩
  obtain ⟨hg, hdevice⟩ := mount_geometry hmount
  obtain rfl := validDevice_pointer hdevice
  have hvalid := hg.state_valid
  have hlen := listRoot_length device hvalid
  have hat : ∀ i, i < (listRoot fs device).live.length → ∃ record,
      (listRoot fs device).live[i]? = some record ∧ entryCall fs device capacity i =
        ⟨.ok, some (shortName record), some (UInt64.ofNat (shortName record).length),
          some (foundEntry record)⟩ := by
    intro i hi
    refine ⟨_, List.getElem?_eq_getElem hi, ?_⟩
    rw [entryCall_eq hvalid hdevice hcap (by omega), List.getElem?_eq_getElem hi]
  have hend : entryCall fs device capacity (listRoot fs device).live.length =
      ⟨(listRoot fs device).ending.getD .corrupt, none, none, none⟩ := by
    rw [entryCall_eq hvalid hdevice hcap hlen, List.getElem?_eq_none (Nat.le_refl _)]
  have hread := readFile_eq hvalid hdevice hpath hroot output outputCapacity
  refine ⟨(listRoot fs device).live.length, ?_, ?_, ?_, ?_⟩
  · intro i hi
    obtain ⟨record, -, heq⟩ := hat i hi
    rw [heq]
  · obtain ⟨status, hstatus, hne⟩ :=
      listClusters_ending fs device maxDirectoryClusters fs.rootCluster
    rw [hend]
    show (listRoot fs device).ending.getD .corrupt ≠ .ok
    rw [show (listRoot fs device).ending = some status from hstatus]
    exact hne
  · intro i hi hsame hbefore
    obtain ⟨record, hrecord, heq⟩ := hat i hi
    rw [heq] at hsame
    -- the record found is the first whose name matches
    have hfind : ((listRoot fs device).live.find? fun r => pathMatches path (shortName r)) =
        some record := by
      rw [List.find?_eq_some_iff_getElem]
      refine ⟨(pathMatches_iff path _).mpr hsame, i, hi, ?_, ?_⟩
      · rw [List.getElem?_eq_getElem hi, Option.some.injEq] at hrecord
        exact hrecord
      · intro j hj
        obtain ⟨other, hother, heqj⟩ := hat j (by omega)
        have hnot := hbefore j hj
        rw [heqj] at hnot
        rw [List.getElem?_eq_getElem (by omega), Option.some.injEq] at hother
        rw [hother, Bool.not_eq_true', ← Bool.not_eq_true, pathMatches_iff]
        exact hnot
    rw [hfind] at hread
    refine ⟨record, ?_, ?_, ?_, hread⟩
    · rw [scanRoot_path, hfind]
    · rw [heq]
    · rw [heq]
  · intro hnone
    have hfind : ((listRoot fs device).live.find? fun r => pathMatches path (shortName r)) =
        none := by
      rw [List.find?_eq_none]
      intro r hr hmatch
      obtain ⟨i, hi, rfl⟩ := List.mem_iff_getElem.mp hr
      obtain ⟨record, hrecord, heq⟩ := hat i hi
      have hnot := hnone i hi
      rw [heq] at hnot
      rw [List.getElem?_eq_getElem hi, Option.some.injEq] at hrecord
      rw [hrecord] at hmatch
      exact hnot ((pathMatches_iff path _).mp hmatch)
    rw [hfind] at hread
    rw [hread, hend]

theorem lookup_agrees_with_enumeration_sample :
    ∃ record, scanRoot sampleState sampleDevice (.path samplePath) = .ok record ∧
      (entryCall sampleState sampleDevice 13 1).found = some (foundEntry record) ∧
      (entryCall sampleState sampleDevice 13 0).found ≠ some (foundEntry record) := by
  obtain ⟨⟨count, -, hlast, hfirst, -⟩, -⟩ :=
    lookup_agrees_with_enumeration sampleDevice sampleState .fine .fine 64 sampleDevice_mounts 13
      (by decide) (some fun i => samplePath.getD i 0) 10 samplePath (by decide +kernel)
      (by decide +kernel) true 600
  have hcount : 1 < count := by
    by_contra hsmall
    have hboth : ∀ n < 2, (entryCall sampleState sampleDevice 13 n).status = .ok := by
      decide +kernel
    exact hlast (hboth count (by omega))
  obtain ⟨record, hscan, -, hfound, -⟩ := hfirst 1 hcount (by decide +kernel) (by decide +kernel)
  refine ⟨record, hscan, hfound, ?_⟩
  rw [← hfound]
  decide +kernel

end ArgusOs.Fat32
