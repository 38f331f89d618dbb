/-
  What the entries of a MADT say.

  The bytes behind the header split into entries that carry their own length. `acpi_init` walks
  them with a pointer; here the walk is compared with the split, and what it reports with the
  entries taken as a list. `madtEntriesIn` is the walk once more, with reads that fail outside
  the table and without a result as long as the loop has not ended.
-/
import ArgusOs.Acpi.Madt

namespace ArgusOs.Acpi

open Lib

variable {entry : List UInt8} {source : UInt8} {address stop : Nat} {entries : List (List UInt8)}
  {mem : Mem} {flags header : UInt32} {info : Info}

/-! ## Entries -/

/-- An entry's second byte is its length. -/
structure IsEntry (entry : List UInt8) : Prop where
  long : 2 ≤ entry.length
  length : entry[1]?.map UInt8.toNat = some entry.length

/-- Bytes that are entries, with at most one byte left over. -/
structure Splits (payload : List UInt8) (entries : List (List UInt8)) : Prop where
  each : ∀ entry ∈ entries, IsEntry entry
  rest : ∃ rest, rest.length ≤ 1 ∧ payload = entries.flatten ++ rest

/-- An entry as memory from address 0 on. -/
def entryMem (entry : List UInt8) : Mem := fun i => entry.getD i 0

def isProcessor (entry : List UInt8) : Bool :=
  entryMem entry 0 = 0 ∧ 8 ≤ entry.length ∧ load32 (entryMem entry) 4 &&& 3 ≠ 0

def isIoApic (entry : List UInt8) : Bool :=
  entryMem entry 0 = 1 ∧ 12 ≤ entry.length ∧ load32 (entryMem entry) 4 ≠ 0

def isOverride (entry : List UInt8) : Bool := entryMem entry 0 = 2 ∧ 10 ≤ entry.length

/-- An override of an interrupt of the ISA bus. -/
def isIsaOverride (source : UInt8) (entry : List UInt8) : Bool :=
  isOverride entry ∧ entryMem entry 2 = 0 ∧ entryMem entry 3 = source

def isLocalApic (entry : List UInt8) : Bool := entryMem entry 0 = 5 ∧ 12 ≤ entry.length

/-- The last entry of a kind. -/
def lastOf (kind : List UInt8 → Bool) (entries : List (List UInt8)) : Option (List UInt8) :=
  (entries.filter kind).getLast?

/-- The local APIC's address: the header's, unless an entry replaces it. -/
def localApicOf (header : UInt32) (entries : List (List UInt8)) : UInt64 :=
  ((lastOf isLocalApic entries).map fun entry => load64 (entryMem entry) 4).getD header.toUInt64

/-- Where an interrupt of the ISA bus goes, and its flags. -/
def isaInterrupt (source : UInt8) (entries : List (List UInt8)) : UInt32 × UInt16 :=
  ((lastOf (isIsaOverride source) entries).map fun entry =>
    (load32 (entryMem entry) 4, load16 (entryMem entry) 8)).getD (source.toUInt32, 0)

/-- The first I/O APIC that has an address. -/
structure ReportsIoApic (info : Info) (entries : List (List UInt8)) : Prop where
  found : ∀ entry, entries.find? isIoApic = some entry →
    info.ioApicAddress = (load32 (entryMem entry) 4).toUInt64 ∧
      info.ioApicGsiBase = load32 (entryMem entry) 8
  absent : entries.find? isIoApic = none → info.ioApicAddress = 0

/-- What is to be reported of a table with these entries. -/
structure Reports (info : Info) (header flags : UInt32) (entries : List (List UInt8)) : Prop where
  processors : info.enabledCpuCount.toNat = entries.countP isProcessor
  localApic : info.localApicAddress = localApicOf header entries
  ioApic : ReportsIoApic info entries
  overrides : info.interruptOverrideCount.toNat = entries.countP isOverride
  keyboard : (info.keyboardGsi, info.keyboardFlags) = isaInterrupt 1 entries
  mouse : (info.mouseGsi, info.mouseFlags) = isaInterrupt 12 entries
  flags : info.madtFlags = flags

/-! ## One entry -/

theorem IsEntry.lengthByte (h : IsEntry entry) : (entryMem entry 1).toNat = entry.length := by
  have hlength := h.length
  unfold entryMem
  rw [List.getD_eq_getElem?_getD]
  cases hbyte : entry[1]? with
  | none =>
    rw [hbyte] at hlength
    cases hlength
  | some byte =>
    rw [hbyte] at hlength
    exact Option.some.inj hlength

theorem IsEntry.long_iff (h : IsEntry entry) (n : UInt8) :
    entryMem entry 1 ≥ n ↔ n.toNat ≤ entry.length := by
  rw [ge_iff_le, UInt8.le_iff_toNat_le, h.lengthByte]

/-- What an entry makes the walk note. -/
inductive Tells (entry : List UInt8) (info : Info) : Info → Prop
  | processor (h : isProcessor entry = true) :
    Tells entry info { info with enabledCpuCount := info.enabledCpuCount + 1 }
  | ioApic (h : entryMem entry 0 = 1) (hlong : 12 ≤ entry.length) (hnone : info.ioApicAddress = 0) :
    Tells entry info { info with
      ioApicAddress := (load32 (entryMem entry) 4).toUInt64
      ioApicGsiBase := load32 (entryMem entry) 8 }
  | override (h : isOverride entry = true) (hbus : entryMem entry 2 ≠ 0) :
    Tells entry info { info with interruptOverrideCount := info.interruptOverrideCount + 1 }
  | isaOverride (source : UInt8) (h : isIsaOverride source entry = true) :
    Tells entry info (Info.override
      { info with interruptOverrideCount := info.interruptOverrideCount + 1 } source
      (load32 (entryMem entry) 4) (load16 (entryMem entry) 8))
  | localApic (h : isLocalApic entry = true) :
    Tells entry info { info with localApicAddress := load64 (entryMem entry) 4 }
  | nothing (hcpu : isProcessor entry = false) (hoverride : isOverride entry = false)
    (hlocal : isLocalApic entry = false) (hio : isIoApic entry = true → info.ioApicAddress ≠ 0) :
    Tells entry info info

theorem madtEntry_tells (h : IsEntry entry) (info : Info) :
    Tells entry info (madtEntry (entryMem entry) 0 info) := by
  unfold madtEntry
  simp only [Nat.zero_add, h.long_iff]
  split
  · next h0 =>
    split
    · next hflags => exact .processor (decide_eq_true ⟨h0.1, h0.2, hflags⟩)
    · next hflags =>
      refine .nothing (decide_eq_false fun hp => hflags hp.2.2) ?_ ?_ ?_
      all_goals simp [isOverride, isLocalApic, isIoApic, h0.1]
  split
  · next h1 => exact .ioApic h1.1 h1.2.1 h1.2.2
  split
  · next h2 =>
    have hoverride : isOverride entry = true := decide_eq_true h2
    split
    · next hbus => exact .isaOverride _ (decide_eq_true ⟨hoverride, hbus, rfl⟩)
    · next hbus => exact .override hoverride hbus
  split
  · next h5 => exact .localApic (decide_eq_true h5)
  · next h0 h1 h2 h5 =>
    exact .nothing (decide_eq_false fun hp => h0 ⟨hp.1, hp.2.1⟩) (decide_eq_false h2)
      (decide_eq_false h5) fun hio hnone =>
        h1 ⟨(of_decide_eq_true hio).1, (of_decide_eq_true hio).2.1, hnone⟩

/-! ## One entry more -/

section Concat
variable {kind : List UInt8 → Bool}

theorem countP_concat (kind : List UInt8 → Bool) (entries : List (List UInt8))
    (entry : List UInt8) :
    (entries ++ [entry]).countP kind = entries.countP kind + if kind entry then 1 else 0 := by
  rw [List.countP_append, List.countP_singleton]

theorem lastOf_concat (kind : List UInt8 → Bool) (entries : List (List UInt8))
    (entry : List UInt8) :
    lastOf kind (entries ++ [entry]) = if kind entry then some entry else lastOf kind entries := by
  unfold lastOf
  rw [List.filter_append, List.filter_singleton]
  split <;> simp [*]

theorem countP_other (h : kind entry = false) :
    (entries ++ [entry]).countP kind = entries.countP kind := by
  rw [countP_concat, h]
  rfl

theorem localApicOf_other (h : isLocalApic entry = false) (header : UInt32) :
    localApicOf header (entries ++ [entry]) = localApicOf header entries := by
  unfold localApicOf
  rw [lastOf_concat, h]
  rfl

theorem isaInterrupt_other (h : isIsaOverride source entry = false) :
    isaInterrupt source (entries ++ [entry]) = isaInterrupt source entries := by
  unfold isaInterrupt
  rw [lastOf_concat, h]
  rfl

theorem isaInterrupt_self (h : isIsaOverride source entry = true) :
    isaInterrupt source (entries ++ [entry]) =
      (load32 (entryMem entry) 4, load16 (entryMem entry) 8) := by
  unfold isaInterrupt
  rw [lastOf_concat, h]
  rfl

theorem isIsaOverride_false (h : isOverride entry = false) (source : UInt8) :
    isIsaOverride source entry = false := by
  simp [isIsaOverride, h]

/-- A counter of 32 bits counts as many entries as there can be. -/
theorem count_next {count : UInt32} (hcount : count.toNat = entries.countP kind)
    (hfew : entries.length + 1 < 2 ^ 32) (h : kind entry = true) :
    (count + 1).toNat = (entries ++ [entry]).countP kind := by
  have hle : entries.countP kind ≤ entries.length := List.countP_le_length
  rw [countP_concat, if_pos h, UInt32.toNat_add, hcount]
  exact Nat.mod_eq_of_lt (by rw [UInt32.toNat_one]; omega)

end Concat

section IoApic
variable {info' : Info}

/-- An address is noted just if an I/O APIC with an address was there. -/
theorem ReportsIoApic.address_iff (h : ReportsIoApic info entries) :
    info.ioApicAddress = 0 ↔ entries.find? isIoApic = none := by
  refine ⟨fun hzero => ?_, h.absent⟩
  cases hfind : entries.find? isIoApic with
  | none => rfl
  | some entry =>
    have hio : isIoApic entry = true := List.find?_some hfind
    refine absurd ?_ (of_decide_eq_true hio).2.2
    rw [(h.found entry hfind).1, ← UInt64.toNat_inj, UInt32.toNat_toUInt64] at hzero
    exact UInt32.toNat_inj.mp hzero

/-- Once an I/O APIC is noted, or if the entry is none, the entry changes nothing. -/
theorem ReportsIoApic.other (h : ReportsIoApic info entries)
    (haddress : info'.ioApicAddress = info.ioApicAddress)
    (hbase : info'.ioApicGsiBase = info.ioApicGsiBase)
    (hio : isIoApic entry = true → info.ioApicAddress ≠ 0) :
    ReportsIoApic info' (entries ++ [entry]) := by
  have hfind : (entries ++ [entry]).find? isIoApic = entries.find? isIoApic := by
    rw [List.find?_append]
    cases hfind : entries.find? isIoApic with
    | some first => rfl
    | none =>
      have hnot : isIoApic entry = false := by
        rw [← Bool.not_eq_true]
        exact fun hyes => hio hyes (h.absent hfind)
      rw [List.find?_singleton, hnot]
      rfl
  constructor
  · intro first hfirst
    rw [hfind] at hfirst
    rw [haddress, hbase]
    exact h.found first hfirst
  · intro hnone
    rw [hfind] at hnone
    rw [haddress]
    exact h.absent hnone

theorem ReportsIoApic.first (h : ReportsIoApic info entries) (hkind : entryMem entry 0 = 1)
    (hlong : 12 ≤ entry.length) (hzero : info.ioApicAddress = 0)
    (haddress : info'.ioApicAddress = (load32 (entryMem entry) 4).toUInt64)
    (hbase : info'.ioApicGsiBase = load32 (entryMem entry) 8) :
    ReportsIoApic info' (entries ++ [entry]) := by
  have hnone := h.address_iff.mp hzero
  constructor
  · intro first hfirst
    rw [List.find?_append, hnone, Option.none_or, List.find?_singleton] at hfirst
    split at hfirst
    · rw [← Option.some.inj hfirst]
      exact ⟨haddress, hbase⟩
    · cases hfirst
  · intro hlast
    rw [List.find?_append, hnone, Option.none_or, List.find?_singleton] at hlast
    split at hlast
    · cases hlast
    · next hnot =>
      have hvalue : load32 (entryMem entry) 4 = 0 := by
        by_contra hne
        exact hnot (decide_eq_true ⟨hkind, hlong, hne⟩)
      rw [haddress, hvalue]
      rfl

end IoApic

theorem Info.override_eq (info : Info) (source : UInt8) (gsi : UInt32) (flags : UInt16) :
    info.override source gsi flags = { info with
      keyboardGsi := if source = 1 then gsi else info.keyboardGsi
      keyboardFlags := if source = 1 then flags else info.keyboardFlags
      mouseGsi := if source = 12 then gsi else info.mouseGsi
      mouseFlags := if source = 12 then flags else info.mouseFlags } := by
  unfold Info.override
  by_cases h1 : source = 1
  · simp [h1]
  · by_cases h12 : source = 12 <;> simp [h1, h12]

/-- An override of one source leaves the others where they went. -/
theorem isaInterrupt_concat (h : isIsaOverride source entry = true) (other : UInt8) {gsi : UInt32}
    {flags : UInt16} (hother : (gsi, flags) = isaInterrupt other entries) :
    (if source = other then load32 (entryMem entry) 4 else gsi,
        if source = other then load16 (entryMem entry) 8 else flags) =
      isaInterrupt other (entries ++ [entry]) := by
  by_cases hsame : source = other
  · subst hsame
    rw [if_pos rfl, if_pos rfl, isaInterrupt_self h]
  · have hsource : entryMem entry 3 = source := (of_decide_eq_true h).2.2
    rw [if_neg hsame, if_neg hsame, isaInterrupt_other (by simp [isIsaOverride, hsource, hsame])]
    exact hother

theorem Reports.next {info' : Info} (h : Reports info header flags entries)
    (ht : Tells entry info info') (hfew : entries.length + 1 < 2 ^ 32) :
    Reports info' header flags (entries ++ [entry]) := by
  have hcpu := h.processors
  have hlocal := h.localApic
  have hcount := h.overrides
  have hkey := h.keyboard
  have hmouse := h.mouse
  cases ht with
  | processor hp =>
    have hkind : entryMem entry 0 = 0 := (of_decide_eq_true hp).1
    have ho : isOverride entry = false := by simp [isOverride, hkind]
    constructor
    case processors => exact count_next hcpu hfew hp
    case localApic => rwa [localApicOf_other (by simp [isLocalApic, hkind])]
    case ioApic => exact h.ioApic.other rfl rfl (by simp [isIoApic, hkind])
    case overrides => rwa [countP_other ho]
    case keyboard | mouse => rwa [isaInterrupt_other (isIsaOverride_false ho _)]
    case flags => exact h.flags
  | ioApic hkind hlong hnone =>
    have ho : isOverride entry = false := by simp [isOverride, hkind]
    constructor
    case processors => rwa [countP_other (by simp [isProcessor, hkind])]
    case localApic => rwa [localApicOf_other (by simp [isLocalApic, hkind])]
    case ioApic => exact h.ioApic.first hkind hlong hnone rfl rfl
    case overrides => rwa [countP_other ho]
    case keyboard | mouse => rwa [isaInterrupt_other (isIsaOverride_false ho _)]
    case flags => exact h.flags
  | override ho hbus =>
    have hkind : entryMem entry 0 = 2 := (of_decide_eq_true ho).1
    constructor
    case processors => rwa [countP_other (by simp [isProcessor, hkind])]
    case localApic => rwa [localApicOf_other (by simp [isLocalApic, hkind])]
    case ioApic => exact h.ioApic.other rfl rfl (by simp [isIoApic, hkind])
    case overrides => exact count_next hcount hfew ho
    case keyboard => rwa [isaInterrupt_other (by simp [isIsaOverride, hbus])]
    case mouse => rwa [isaInterrupt_other (by simp [isIsaOverride, hbus])]
    case flags => exact h.flags
  | isaOverride source hisa =>
    have ho : isOverride entry = true := (of_decide_eq_true hisa).1
    have hkind : entryMem entry 0 = 2 := (of_decide_eq_true ho).1
    rw [Info.override_eq]
    constructor
    case processors => rwa [countP_other (by simp [isProcessor, hkind])]
    case localApic => rwa [localApicOf_other (by simp [isLocalApic, hkind])]
    case ioApic => exact h.ioApic.other rfl rfl (by simp [isIoApic, hkind])
    case overrides => exact count_next hcount hfew ho
    case keyboard => exact isaInterrupt_concat hisa 1 hkey
    case mouse => exact isaInterrupt_concat hisa 12 hmouse
    case flags => exact h.flags
  | localApic hl =>
    have hkind : entryMem entry 0 = 5 := (of_decide_eq_true hl).1
    have ho : isOverride entry = false := by simp [isOverride, hkind]
    constructor
    case processors => rwa [countP_other (by simp [isProcessor, hkind])]
    case localApic =>
      rw [localApicOf, lastOf_concat, hl]
      rfl
    case ioApic => exact h.ioApic.other rfl rfl (by simp [isIoApic, hkind])
    case overrides => rwa [countP_other ho]
    case keyboard | mouse => rwa [isaInterrupt_other (isIsaOverride_false ho _)]
    case flags => exact h.flags
  | nothing hp ho hl hio =>
    constructor
    case processors => rwa [countP_other hp]
    case localApic => rwa [localApicOf_other hl]
    case ioApic => exact h.ioApic.other rfl rfl hio
    case overrides => rwa [countP_other ho]
    case keyboard | mouse => rwa [isaInterrupt_other (isIsaOverride_false ho _)]
    case flags => exact h.flags

/-! ## The walk -/

/-- The bytes of memory from an address on. -/
def tableBytes (mem : Mem) (address length : Nat) : List UInt8 :=
  (List.range length).map fun i => mem (address + i)

theorem tableBytes_length (mem : Mem) (address length : Nat) :
    (tableBytes mem address length).length = length := by
  simp [tableBytes]

theorem tableBytes_add (mem : Mem) (address m n : Nat) :
    tableBytes mem address (m + n) = tableBytes mem address m ++
      tableBytes mem (address + m) n := by
  simp [tableBytes, List.range_add, Nat.add_assoc, Function.comp_def]

theorem entryMem_tableBytes {length i : Nat} (h : i < length) :
    entryMem (tableBytes mem address length) i = mem (address + i) := by
  simp [entryMem, tableBytes, h]

section Congr
variable {mem' : Mem} {entry entry' length : Nat}
  (h : ∀ i, i < length → mem (entry + i) = mem' (entry' + i))

include h in
theorem loadLe_same {a n : Nat} (hlen : a + n ≤ length) :
    loadLe mem (entry + a) n = loadLe mem' (entry' + a) n := by
  induction n generalizing a with
  | zero => rfl
  | succ n ih =>
    unfold loadLe
    rw [h a (by omega), Nat.add_assoc, Nat.add_assoc, ih (by omega)]

include h in
/-- An entry is read in the same way wherever it lies. -/
theorem madtEntry_same (info : Info) (hlength : (mem (entry + 1)).toNat = length)
    (hlong : 2 ≤ length) : madtEntry mem entry info = madtEntry mem' entry' info := by
  have h0 : mem entry = mem' entry' := h 0 (by omega)
  have h1 : mem (entry + 1) = mem' (entry' + 1) := h 1 (by omega)
  have hload32 : ∀ a, a + 4 ≤ length → load32 mem (entry + a) = load32 mem' (entry' + a) := by
    intro a ha
    unfold load32
    rw [loadLe_same h ha]
  have hlonger : ∀ n : UInt8, mem' (entry' + 1) ≥ n → n.toNat ≤ length := by
    intro n hn
    rwa [ge_iff_le, UInt8.le_iff_toNat_le, ← h1, hlength] at hn
  unfold madtEntry
  dsimp only
  rw [h0, h1]
  refine ite_congr rfl (fun hc => ?_) fun _ => ite_congr rfl (fun hc => ?_) fun _ =>
    ite_congr rfl (fun hc => ?_) fun _ => ite_congr rfl (fun hc => ?_) fun _ => rfl
  · rw [hload32 4 (hlonger 8 hc.2)]
  · have hlen := hlonger 12 hc.2.1
    rw [hload32 4 (le_trans (by decide) hlen), hload32 8 hlen]
  · have hlen : 10 ≤ length := hlonger 10 hc.2
    unfold load16
    rw [hload32 4 (by omega), loadLe_same h hlen, h 2 (by omega), h 3 (by omega)]
  · unfold load64
    rw [loadLe_same h (hlonger 12 hc.2)]

end Congr

theorem isEntry_tableBytes {entry : Nat} (hlong : 2 ≤ (mem (entry + 1)).toNat) :
    IsEntry (tableBytes mem entry (mem (entry + 1)).toNat) := by
  refine ⟨by rwa [tableBytes_length], ?_⟩
  rw [tableBytes_length]
  simp [tableBytes, show 1 < (mem (entry + 1)).toNat from hlong]

/-- The entries one after the other, as the walk takes them. -/
def tell (info : Info) (entries : List (List UInt8)) : Info :=
  entries.foldl (fun info entry => madtEntry (entryMem entry) 0 info) info

/-- Bytes that split begin with an entry, unless they are one byte at most. -/
theorem Splits.head {length : Nat} (h : Splits (tableBytes mem address length) (entry :: entries)) :
    ∃ left, length = entry.length + left ∧ entry = tableBytes mem address entry.length ∧
      Splits (tableBytes mem (address + entry.length) left) entries := by
  obtain ⟨heach, rest, hrest, hbytes⟩ := h
  rw [List.flatten_cons, List.append_assoc] at hbytes
  have hlength := congrArg List.length hbytes
  rw [tableBytes_length, List.length_append] at hlength
  rw [hlength, tableBytes_add] at hbytes
  obtain ⟨hentry, htail⟩ := List.append_inj hbytes (tableBytes_length mem address _)
  exact ⟨_, hlength, hentry.symm, fun e he => heach e (List.mem_cons_of_mem _ he), rest,
    hrest, htail⟩

theorem entryMem_of_eq {i : Nat} (h : entry = tableBytes mem address entry.length)
    (hi : i < entry.length) : entryMem entry i = mem (address + i) := by
  have hbyte : entryMem (tableBytes mem address entry.length) i = _ := entryMem_tableBytes hi
  rwa [← h] at hbyte

theorem madtEntries_of_splits {steps entry : Nat} (hle : entry ≤ stop)
    (h : Splits (tableBytes mem entry (stop - entry)) entries) (hsteps : entries.length < steps) :
    madtEntries mem stop steps entry info = (tell info entries, true) := by
  obtain ⟨steps, rfl⟩ : ∃ n, steps = n + 1 := ⟨steps - 1, by omega⟩
  induction entries generalizing entry info steps with
  | nil =>
    obtain ⟨-, rest, hrest, hbytes⟩ := h
    have hlength := congrArg List.length hbytes
    rw [tableBytes_length, List.flatten_nil, List.nil_append] at hlength
    unfold madtEntries
    rw [if_neg (by omega)]
    rfl
  | cons first entries ih =>
    obtain ⟨left, hlength, hfirst, hrest⟩ := h.head
    have hentry := h.each first List.mem_cons_self
    have hlong := hentry.long
    have hat : (mem (entry + 1)).toNat = first.length := by
      rw [← hentry.lengthByte, entryMem_of_eq hfirst hlong]
    obtain ⟨steps, rfl⟩ : ∃ n, steps = n + 1 := ⟨steps - 1, by simp at hsteps; omega⟩
    have hleft : left = stop - (entry + first.length) := by omega
    rw [hleft] at hrest
    have hsame : madtEntry mem entry info = madtEntry (entryMem first) 0 info := by
      refine madtEntry_same (fun i hi => ?_) info hat hlong
      rw [Nat.zero_add, entryMem_of_eq hfirst hi]
    unfold madtEntries
    rw [if_pos (by omega)]
    dsimp only
    rw [hat, if_neg (by omega), hsame, ih (by omega) hrest steps (by simpa using hsteps)]
    rfl

theorem splits_of_madtEntries {steps entry : Nat} (hle : entry ≤ stop)
    (h : (madtEntries mem stop steps entry info).2 = true) :
    ∃ entries, Splits (tableBytes mem entry (stop - entry)) entries := by
  induction steps generalizing entry info with
  | zero => cases h
  | succ steps ih =>
    unfold madtEntries at h
    split at h
    · next hmore =>
      dsimp only at h
      split at h
      · cases h
      · next hgo =>
        obtain ⟨entries, heach, rest, hrest, hbytes⟩ := ih (by omega) h
        refine ⟨tableBytes mem entry (mem (entry + 1)).toNat :: entries, ?_, rest, hrest, ?_⟩
        · intro e he
          rcases List.mem_cons.mp he with rfl | he
          · exact isEntry_tableBytes (by omega)
          · exact heach e he
        · rw [List.flatten_cons, List.append_assoc, ← hbytes, ← tableBytes_add]
          congr 1
          omega
    · next hend =>
      exact ⟨[], by simp, tableBytes mem entry (stop - entry),
        by rw [tableBytes_length]; omega, rfl⟩

theorem Splits.length_le {payload : List UInt8} (h : Splits payload entries) :
    2 * entries.length ≤ payload.length := by
  obtain ⟨heach, rest, -, rfl⟩ := h
  have hflat : 2 * entries.length ≤ entries.flatten.length := by
    induction entries with
    | nil => simp
    | cons entry entries ih =>
      have hlong := (heach entry List.mem_cons_self).long
      have := ih fun e he => heach e (List.mem_cons_of_mem _ he)
      rw [List.flatten_cons, List.length_append, List.length_cons]
      omega
  rw [List.length_append]
  omega

theorem Reports.tell (h : Reports info header flags []) (heach : ∀ entry ∈ entries, IsEntry entry)
    (hfew : entries.length < 2 ^ 32) : Reports (tell info entries) header flags entries := by
  induction entries using List.reverseRecOn with
  | nil => exact h
  | append_singleton entries entry ih =>
    rw [List.length_append, List.length_singleton] at hfew
    have hbefore := ih (fun e he => heach e (List.mem_append_left _ he)) (by omega)
    unfold Acpi.tell
    rw [List.foldl_append]
    exact hbefore.next (madtEntry_tells (heach entry (by simp)) _) hfew

/-! ## Reads -/

/-- What a program can read that may read the bytes from `first` up to `last` only. -/
def window (mem : Mem) (first last : Nat) : Nat → Option UInt8 :=
  fun address => if first ≤ address ∧ address < last then some (mem address) else none

/-- A little-endian number, if all its bytes can be read. -/
def readLe (read : Nat → Option UInt8) (address : Nat) : Nat → Option Nat
  | 0 => some 0
  | n + 1 => do
    let byte ← read address
    let rest ← readLe read (address + 1) n
    some (byte.toNat + 256 * rest)

/-- What one entry tells, once its type and length are read. -/
def madtEntryIn (read : Nat → Option UInt8) (entry : Nat) (type length : UInt8) (info : Info) :
    Option Info :=
  if type = 0 ∧ length ≥ 8 then do
    let flags ← readLe read (entry + 4) 4
    if UInt32.ofNat flags &&& 3 ≠ 0 then
      some { info with enabledCpuCount := info.enabledCpuCount + 1 }
    else some info
  else if type = 1 ∧ length ≥ 12 ∧ info.ioApicAddress = 0 then do
    let address ← readLe read (entry + 4) 4
    let base ← readLe read (entry + 8) 4
    some { info with
      ioApicAddress := (UInt32.ofNat address).toUInt64
      ioApicGsiBase := UInt32.ofNat base }
  else if type = 2 ∧ length ≥ 10 then do
    let info := { info with interruptOverrideCount := info.interruptOverrideCount + 1 }
    let bus ← read (entry + 2)
    if bus = 0 then do
      let source ← read (entry + 3)
      let gsi ← readLe read (entry + 4) 4
      let flags ← readLe read (entry + 8) 2
      some (info.override source (UInt32.ofNat gsi) (UInt16.ofNat flags))
    else some info
  else if type = 5 ∧ length ≥ 12 then do
    let address ← readLe read (entry + 4) 8
    some { info with localApicAddress := UInt64.ofNat address }
  else some info

/-- The loop of `acpi_init` with such reads. -/
def madtEntriesIn (read : Nat → Option UInt8) (stop : Nat) : Nat → Nat → Info → Option (Info × Bool)
  | 0, _, _ => none
  | turns + 1, entry, info =>
    if entry + 2 ≤ stop then do
      let type ← read entry
      let length ← read (entry + 1)
      if length.toNat < 2 ∨ entry + length.toNat > stop then some (info, false)
      else do
        let info ← madtEntryIn read entry type length info
        madtEntriesIn read stop turns (entry + length.toNat) info
    else some (info, true)

section Window
variable {first last entry : Nat}

theorem window_inside (h1 : first ≤ address) (h2 : address < last) :
    window mem first last address = some (mem address) :=
  if_pos ⟨h1, h2⟩

theorem readLe_inside {n : Nat} (h1 : first ≤ address) (h2 : address + n ≤ last) :
    readLe (window mem first last) address n = some (loadLe mem address n) := by
  induction n generalizing address with
  | zero => rfl
  | succ n ih =>
    unfold readLe
    rw [window_inside h1 (by omega), ih (by omega) (by omega)]
    rfl

/-- An entry inside the window is read inside the window. -/
theorem madtEntryIn_inside (info : Info) (h1 : first ≤ entry)
    (h2 : entry + (mem (entry + 1)).toNat ≤ last) :
    madtEntryIn (window mem first last) entry (mem entry) (mem (entry + 1)) info =
      some (madtEntry mem entry info) := by
  have hlonger : ∀ n : UInt8, mem (entry + 1) ≥ n → entry + n.toNat ≤ last := by
    intro n hn
    rw [ge_iff_le, UInt8.le_iff_toNat_le] at hn
    omega
  unfold madtEntryIn madtEntry
  dsimp only
  split
  · next hc =>
    have hlen : entry + 8 ≤ last := hlonger 8 hc.2
    rw [readLe_inside (by omega) (by omega)]
    exact (apply_ite some _ _ _).symm
  split
  · next hc =>
    have hlen : entry + 12 ≤ last := hlonger 12 hc.2.1
    rw [readLe_inside (by omega) (by omega), readLe_inside (by omega) (by omega)]
    rfl
  split
  · next hc =>
    have hlen : entry + 10 ≤ last := hlonger 10 hc.2
    rw [window_inside (by omega) (by omega), window_inside (by omega) (by omega),
      readLe_inside (by omega) (by omega), readLe_inside (by omega) (by omega)]
    exact (apply_ite some _ _ _).symm
  split
  · next hc =>
    have hlen : entry + 12 ≤ last := hlonger 12 hc.2
    rw [readLe_inside (by omega) (by omega)]
    rfl
  · rfl

/-- The walk reads bytes of the window only, and ends. -/
theorem madtEntriesIn_inside {turns : Nat} (info : Info) (h1 : first ≤ entry) (h2 : stop ≤ last)
    (h3 : entry ≤ stop) (hturns : stop - entry < turns) :
    madtEntriesIn (window mem first last) stop turns entry info =
      some (madtEntries mem stop turns entry info) := by
  induction turns generalizing entry info with
  | zero => omega
  | succ turns ih =>
    unfold madtEntriesIn madtEntries
    split
    · next hmore =>
      rw [window_inside h1 (by omega), window_inside (by omega) (by omega)]
      dsimp only [Option.bind_eq_bind, Option.bind_some]
      split
      · rfl
      · next hgo =>
        rw [madtEntryIn_inside info h1 (by omega), Option.bind_some,
          ih _ (by omega) (by omega) (by omega)]
    · rfl

end Window

/-! ## The report of `acpi_init` -/

theorem findMadt_valid {rsdp madt : Nat} (h : findMadt mem rsdp = some madt) :
    sdtValid mem madt = true := by
  unfold findMadt at h
  dsimp only at h
  split at h
  · cases h
  split at h
  · cases h
  split at h
  · cases h
  · have hfound := List.find?_some h
    exact (Bool.and_eq_true_iff.mp hfound).1

theorem sdtLength_le {header : Nat} (h : sdtValid mem header = true) :
    sdtLength mem header ≤ 0x100000 := by
  simp only [sdtValid, Bool.and_eq_true, decide_eq_true_eq] at h
  exact h.1.2

/-- What is noted before the first entry. -/
def Info.start (header flags : UInt32) : Info :=
  { Info.initial with localApicAddress := header.toUInt64, madtFlags := flags }

theorem Reports.start (header flags : UInt32) :
    Reports (Info.start header flags) header flags [] where
  processors := rfl
  localApic := rfl
  ioApic := ⟨by simp, fun _ => rfl⟩
  overrides := rfl
  keyboard := rfl
  mouse := rfl
  flags := rfl

theorem Reports.processors_iff (h : Reports info header flags entries) :
    info.enabledCpuCount ≠ 0 ↔ ∃ entry ∈ entries, isProcessor entry = true := by
  rw [← List.countP_pos_iff, ← h.processors, Nat.pos_iff_ne_zero, ne_eq, ne_eq, ← UInt32.toNat_inj]
  rfl

/-- The walk of `acpi_init` over the entries of the MADT it has found. -/
def madtWalk (mem : Mem) (madt : Nat) : Info × Bool :=
  madtEntries mem (madt + sdtLength mem madt) (sdtLength mem madt) (madt + madtSize)
    (Info.start (load32 mem (madt + 36)) (load32 mem (madt + 40)))

theorem acpiInit_eq {rsdp madt : Nat} (hrsdp : rsdp ≠ 0) (hvalid : rsdpValid mem rsdp = true)
    (hfind : findMadt mem rsdp = some madt) (hlength : madtSize ≤ sdtLength mem madt) :
    acpiInit mem rsdp = ((madtWalk mem madt).1,
      (madtWalk mem madt).2 && (madtWalk mem madt).1.localApicAddress ≠ 0 &&
        (madtWalk mem madt).1.enabledCpuCount ≠ 0) := by
  unfold acpiInit
  rw [if_neg (by simp [hrsdp, hvalid]), hfind]
  dsimp only
  rw [if_neg (Nat.not_lt.mpr hlength)]
  rfl

/-- With a root pointer and an XSDT in order and a MADT that holds its header: the walk over the
    entries ends and reads bytes of the table only, `acpi_init` succeeds just if the bytes behind
    the header split into entries and those name a local APIC and a processor, and it reports what
    the entries say. -/
theorem acpiInit_report (mem : Mem) (rsdp madt : Nat) (hrsdp : rsdp ≠ 0)
    (hvalid : rsdpValid mem rsdp = true) (hfind : findMadt mem rsdp = some madt)
    (hlength : madtSize ≤ sdtLength mem madt) :
    (∃ complete, madtEntriesIn (window mem madt (madt + sdtLength mem madt))
        (madt + sdtLength mem madt) (sdtLength mem madt) (madt + madtSize)
        (Info.start (load32 mem (madt + 36)) (load32 mem (madt + 40))) =
      some ((acpiInit mem rsdp).1, complete)) ∧
    ((acpiInit mem rsdp).2 = true ↔
      ∃ entries, Splits (tableBytes mem (madt + madtSize) (sdtLength mem madt - madtSize)) entries ∧
        localApicOf (load32 mem (madt + 36)) entries ≠ 0 ∧
        ∃ entry ∈ entries, isProcessor entry = true) ∧
    ∀ entries, Splits (tableBytes mem (madt + madtSize) (sdtLength mem madt - madtSize)) entries →
      Reports (acpiInit mem rsdp).1 (load32 mem (madt + 36)) (load32 mem (madt + 40)) entries := by
  have hbound := sdtLength_le (findMadt_valid hfind)
  have hsize : madtSize = 44 := rfl
  have hpayload : madt + sdtLength mem madt - (madt + madtSize) =
    sdtLength mem madt - madtSize := by
    omega
  -- whatever the entries are, the walk takes them one after the other
  have hwalk : ∀ entries, Splits (tableBytes mem (madt + madtSize) (sdtLength mem madt - madtSize))
      entries → (madtWalk mem madt).2 = true ∧
        Reports (madtWalk mem madt).1 (load32 mem (madt + 36))
          (load32 mem (madt + 40)) entries := by
    intro entries hsplits
    have hfew := hsplits.length_le
    rw [tableBytes_length] at hfew
    have htold : madtWalk mem madt =
        (tell (Info.start (load32 mem (madt + 36)) (load32 mem (madt + 40))) entries, true) := by
      rw [← hpayload] at hsplits
      exact madtEntries_of_splits (by omega) hsplits (by omega)
    rw [htold]
    exact ⟨rfl, (Reports.start _ _).tell hsplits.each (by omega)⟩
  rw [acpiInit_eq hrsdp hvalid hfind hlength]
  refine ⟨⟨_, madtEntriesIn_inside _ (by omega) (Nat.le_refl _) (by omega) (by omega)⟩, ?_,
    fun entries hsplits => (hwalk entries hsplits).2⟩
  simp only [Bool.and_eq_true, decide_eq_true_eq]
  constructor
  · rintro ⟨⟨hcomplete, hlocal⟩, hcpus⟩
    obtain ⟨entries, hsplits⟩ := splits_of_madtEntries (by omega) hcomplete
    rw [hpayload] at hsplits
    have hreports := (hwalk entries hsplits).2
    exact ⟨entries, hsplits, by rwa [← hreports.localApic], hreports.processors_iff.mp hcpus⟩
  · rintro ⟨entries, hsplits, hlocal, hcpus⟩
    obtain ⟨hcomplete, hreports⟩ := hwalk entries hsplits
    exact ⟨⟨hcomplete, by rwa [hreports.localApic]⟩, hreports.processors_iff.mpr hcpus⟩

/-- From address 16 on: a root pointer, an XSDT with one address and a MADT with one processor. -/
def sampleTables : List UInt8 :=
  [82, 83, 68, 32, 80, 84, 82, 32, 61, 65, 82, 71, 85, 83, 32, 2, 0, 0, 0, 0, 36, 0, 0, 0, 52, 0, 0,
    0, 0, 0, 0, 0, 168, 0, 0, 0] ++
  [88, 83, 68, 84, 44, 0, 0, 0, 0, 49, 0, 0, 0, 0, 0, 0, 0, 0, 0, 0, 0, 0, 0, 0, 0, 0, 0, 0, 0, 0,
    0, 0, 0, 0, 0, 0, 96, 0, 0, 0, 0, 0, 0, 0] ++
  [65, 80, 73, 67, 52, 0, 0, 0, 0, 199, 0, 0, 0, 0, 0, 0, 0, 0, 0, 0, 0, 0, 0, 0, 0, 0, 0, 0, 0, 0,
    0, 0, 0, 0, 0, 0, 0, 0, 224, 254, 1, 0, 0, 0, 0, 8, 0, 0, 1, 0, 0, 0]

def sampleMem : Mem := fun address => if address < 16 then 0 else sampleTables.getD (address - 16) 0

/-- The sample tables are accepted: their one entry is a processor. -/
theorem acpiInit_report_sample : (acpiInit sampleMem 16).2 = true := by
  refine (acpiInit_report sampleMem 16 96 (by decide) (by decide +kernel) (by decide +kernel)
    (by decide +kernel)).2.1.mpr ⟨[[0, 8, 0, 0, 1, 0, 0, 0]],
    ⟨?_, [], by decide, by decide +kernel⟩, by decide +kernel, _, List.mem_singleton_self _,
    by decide +kernel⟩
  rw [List.forall_mem_singleton]
  exact ⟨by decide, by decide⟩

end ArgusOs.Acpi
