/-
  Byte memory and little-endian numbers in it.

  A memory is a function from addresses to bytes. Every store is a `writeBytes`: a run of
  bytes given by a function of the offset. Numbers are read and written least significant
  byte first; `loadLe` reads them as natural numbers.
-/
import Mathlib

namespace ArgusOs.Lib

variable {a b n x : Nat} {f : Nat → UInt8} {v : UInt64}

abbrev Mem := Nat → UInt8

variable {mem mem' : Mem}

/-- Store `f 0, f 1, …, f (n - 1)` from address `a` on. -/
def writeBytes (mem : Mem) (a n : Nat) (f : Nat → UInt8) : Mem :=
  fun x => if a ≤ x ∧ x < a + n then f (x - a) else mem x

theorem writeBytes_inside (h : a ≤ x) (h' : x < a + n) : writeBytes mem a n f x = f (x - a) :=
  if_pos ⟨h, h'⟩

theorem writeBytes_outside (h : x < a ∨ a + n ≤ x) : writeBytes mem a n f x = mem x := by
  apply if_neg
  omega

/-- The `n` bytes at `a` as a little-endian number. -/
def loadLe (mem : Mem) (a : Nat) : Nat → Nat
  | 0 => 0
  | n + 1 => (mem a).toNat + 256 * loadLe mem (a + 1) n

def leByte (v i : Nat) : UInt8 := UInt8.ofNat (v / 256 ^ i)

def storeLe (mem : Mem) (a n v : Nat) : Mem := writeBytes mem a n (leByte v)

theorem loadLe_congr (h : ∀ x, a ≤ x → x < a + n → mem x = mem' x) :
    loadLe mem a n = loadLe mem' a n := by
  induction n generalizing a with
  | zero => rfl
  | succ n ih =>
    unfold loadLe
    rw [h a (Nat.le_refl a) (by omega), ih (fun x h1 h2 => h x (by omega) (by omega))]

theorem loadLe_lt (mem : Mem) (a n : Nat) : loadLe mem a n < 256 ^ n := by
  induction n generalizing a with
  | zero => simp [loadLe]
  | succ n ih =>
    have h1 := (mem a).toNat_lt
    have h2 := ih (a + 1)
    unfold loadLe
    rw [Nat.pow_succ]
    omega

theorem loadLe_zero (h : ∀ x, a ≤ x → x < a + n → mem x = 0) : loadLe mem a n = 0 := by
  induction n generalizing a with
  | zero => rfl
  | succ n ih =>
    unfold loadLe
    rw [h a (Nat.le_refl a) (by omega), ih (fun x h1 h2 => h x (by omega) (by omega))]
    rfl

theorem loadLe_storeLe (mem : Mem) (a n v : Nat) :
    loadLe (storeLe mem a n v) a n = v % 256 ^ n := by
  induction n generalizing mem a v with
  | zero => simp [loadLe, Nat.mod_one]
  | succ n ih =>
    -- past the first byte the store looks like the store of `v / 256` one address up
    have htail : loadLe (storeLe mem a (n + 1) v) (a + 1) n =
        loadLe (storeLe mem (a + 1) n (v / 256)) (a + 1) n := by
      apply loadLe_congr
      intro x h1 h2
      unfold storeLe
      rw [writeBytes_inside (by omega) (by omega), writeBytes_inside h1 h2]
      have hx : x - a = (x - (a + 1)) + 1 := by omega
      unfold leByte
      rw [hx, Nat.pow_succ', Nat.div_div_eq_div_mul]
    have hhead : (storeLe mem a (n + 1) v a).toNat = v % 256 := by
      unfold storeLe
      rw [writeBytes_inside (Nat.le_refl a) (by omega)]
      simp [leByte]
    rw [loadLe, htail, ih, hhead, Nat.pow_succ', Nat.mod_mul]

theorem loadLe_storeLe_of_disjoint {v k : Nat} (h : b + k ≤ a ∨ a + n ≤ b) :
    loadLe (storeLe mem a n v) b k = loadLe mem b k := by
  apply loadLe_congr
  intro x h1 h2
  exact writeBytes_outside (by omega)

/-! ## 64-bit words -/

def load64 (mem : Mem) (a : Nat) : UInt64 := UInt64.ofNat (loadLe mem a 8)

def store64 (mem : Mem) (a : Nat) (v : UInt64) : Mem := storeLe mem a 8 v.toNat

theorem load64_congr (h : ∀ x, a ≤ x → x < a + 8 → mem x = mem' x) :
    load64 mem a = load64 mem' a := by
  unfold load64
  rw [loadLe_congr h]

theorem load64_store64 (mem : Mem) (a : Nat) (v : UInt64) : load64 (store64 mem a v) a = v := by
  have hv := v.toNat_lt
  unfold load64 store64
  rw [loadLe_storeLe, Nat.mod_eq_of_lt (by omega), UInt64.ofNat_toNat]

theorem load64_store64_of_disjoint (h : b + 8 ≤ a ∨ a + 8 ≤ b) :
    load64 (store64 mem a v) b = load64 mem b := by
  unfold load64 store64
  rw [loadLe_storeLe_of_disjoint h]

theorem load64_zero (h : ∀ x, a ≤ x → x < a + 8 → mem x = 0) : load64 mem a = 0 := by
  unfold load64
  rw [loadLe_zero h]
  rfl

theorem store64_outside (h : x < a ∨ a + 8 ≤ x) : store64 mem a v x = mem x :=
  writeBytes_outside h

/-! ## 32-bit words -/

def load32 (mem : Mem) (a : Nat) : UInt32 := UInt32.ofNat (loadLe mem a 4)

def store32 (mem : Mem) (a : Nat) (v : UInt32) : Mem := storeLe mem a 4 v.toNat

theorem load32_congr (h : ∀ x, a ≤ x → x < a + 4 → mem x = mem' x) :
    load32 mem a = load32 mem' a := by
  unfold load32
  rw [loadLe_congr h]

theorem load32_store32 (mem : Mem) (a : Nat) (v : UInt32) : load32 (store32 mem a v) a = v := by
  have hv := v.toNat_lt
  unfold load32 store32
  rw [loadLe_storeLe, Nat.mod_eq_of_lt (by omega), UInt32.ofNat_toNat]

theorem load32_store32_of_disjoint {v : UInt32} (h : b + 4 ≤ a ∨ a + 4 ≤ b) :
    load32 (store32 mem a v) b = load32 mem b := by
  unfold load32 store32
  rw [loadLe_storeLe_of_disjoint h]

theorem load32_store64_of_disjoint (h : b + 4 ≤ a ∨ a + 8 ≤ b) :
    load32 (store64 mem a v) b = load32 mem b := by
  unfold load32 store64
  rw [loadLe_storeLe_of_disjoint h]

theorem load64_store32_of_disjoint {v : UInt32} (h : b + 8 ≤ a ∨ a + 4 ≤ b) :
    load64 (store32 mem a v) b = load64 mem b := by
  unfold load64 store32
  rw [loadLe_storeLe_of_disjoint h]

theorem store32_outside {v : UInt32} (h : x < a ∨ a + 4 ≤ x) : store32 mem a v x = mem x :=
  writeBytes_outside h

/-- The low half of a word comes first. -/
theorem load32_toNat (mem : Mem) (a : Nat) :
    (load32 mem a).toNat = (load64 mem a).toNat % 2 ^ 32 := by
  have h8 := loadLe_lt mem a 8
  have h4 := loadLe_lt mem a 4
  unfold load32 load64
  rw [UInt32.toNat_ofNat', UInt64.toNat_ofNat',
    Nat.mod_eq_of_lt (by omega : loadLe mem a 8 < 2 ^ 64)]
  simp only [loadLe]
  omega

/-! ## Byte strings -/

/-- The first `length` bytes of an array. -/
def bytesOf (bytes : Nat → UInt8) (length : Nat) : List UInt8 := (List.range length).map bytes

@[simp] theorem bytesOf_length (bytes : Nat → UInt8) (length : Nat) :
    (bytesOf bytes length).length = length := by simp [bytesOf]

theorem bytesOf_congr {g : Nat → UInt8} (h : ∀ i, i < n → f i = g i) :
    bytesOf f n = bytesOf g n := by
  apply List.map_congr_left
  intro i hi
  exact h i (List.mem_range.mp hi)

theorem bytesOf_getD (input : List UInt8) :
    bytesOf (fun i => input.getD i 0) input.length = input := by
  apply List.ext_getElem
  · simp
  · intro i h1 h2
    simp [bytesOf, List.getD_eq_getElem?_getD, h2]

end ArgusOs.Lib
