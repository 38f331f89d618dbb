/-
  One's complement sums of 16-bit words, as the Internet protocols use them.

  `ocAdd` adds two words and brings the carry around; `ocSum` adds a list of words. A sum of
  words is valid when it is all ones. Programs add the words in a wider register and bring
  the carries around once at the end (`carryFold`): both give the same verdict, because both
  keep the value modulo 65535 and tell zero from everything else.
-/
import Mathlib

namespace ArgusOs.Lib

/-- Add two 16-bit words with end-around carry. -/
def ocAdd (a b : Nat) : Nat := if a + b < 65536 then a + b else a + b - 65535

/-- The one's complement sum of words. -/
def ocSum (words : List Nat) : Nat := words.foldl ocAdd 0

/-- `r` is a 16-bit word that stands for the sum `n`. -/
structure OcRep (r n : Nat) : Prop where
  lt : r < 65536
  mod : r % 65535 = n % 65535
  zero : r = 0 ↔ n = 0

theorem OcRep.ocAdd {a n b : Nat} (h : OcRep a n) (hb : b < 65536) : OcRep (ocAdd a b) (n + b) := by
  have hlt := h.lt
  have hmod := h.mod
  have hzero := h.zero
  unfold Lib.ocAdd
  split
  · exact ⟨by omega, by omega, by omega⟩
  · exact ⟨by omega, by omega, by omega⟩

theorem foldl_ocAdd {a n : Nat} (h : OcRep a n) (words : List Nat) (hw : ∀ w ∈ words, w < 65536) :
    OcRep (words.foldl ocAdd a) (n + words.sum) := by
  induction words generalizing a n with
  | nil => exact h
  | cons w rest ih =>
    rw [List.foldl_cons, List.sum_cons, ← Nat.add_assoc]
    exact ih (h.ocAdd (hw w List.mem_cons_self)) fun v hv => hw v (List.mem_cons_of_mem w hv)

theorem ocSum_rep (words : List Nat) (hw : ∀ w ∈ words, w < 65536) :
    OcRep (ocSum words) words.sum := by
  have h : OcRep 0 0 := ⟨by decide, rfl, Iff.rfl⟩
  have := foldl_ocAdd h words hw
  rwa [Nat.zero_add] at this

/-- All ones: a nonzero multiple of 65535. -/
theorem OcRep.all_ones {r n : Nat} (h : OcRep r n) : r = 65535 ↔ n ≠ 0 ∧ n % 65535 = 0 := by
  have hlt := h.lt
  have hmod := h.mod
  have hzero := h.zero
  constructor
  · intro hr
    omega
  · rintro ⟨h0, hm⟩
    omega

/-- The complement of a word that stands for a sum makes the sum all ones. -/
theorem OcRep.complement {r n : Nat} (h : OcRep r n) :
    n + (65535 - r) ≠ 0 ∧ (n + (65535 - r)) % 65535 = 0 := by
  have hlt := h.lt
  have hmod := h.mod
  have hzero := h.zero
  omega

/-- Two words that stand for one sum are all ones together. -/
theorem OcRep.congr {r r' n : Nat} (h : OcRep r n) (h' : OcRep r' n) : r = 65535 ↔ r' = 65535 := by
  rw [h.all_ones, h'.all_ones]

/-! ## Deferred carries -/

/-- Bring the carry around once. -/
def carryAround (sum : UInt32) : UInt32 := (sum &&& (0xFFFF : UInt32)) + (sum >>> 16)

/-- Bring the carries around until there is none, at most `turns` times. -/
def carryFold : Nat → UInt32 → UInt32
  | 0, sum => sum
  | turns + 1, sum =>
    if sum >>> 16 ≠ 0 then carryFold turns (carryAround sum) else sum

theorem shiftRight_16_toNat (sum : UInt32) : (sum >>> 16).toNat = sum.toNat / 65536 := by
  rw [UInt32.toNat_shiftRight, show (16 : UInt32).toNat % 32 = 16 from rfl,
    Nat.shiftRight_eq_div_pow]

theorem carryAround_toNat (sum : UInt32) :
    (carryAround sum).toNat = sum.toNat % 65536 + sum.toNat / 65536 := by
  have hlt := sum.toNat_lt
  have hand : (sum &&& (0xFFFF : UInt32)).toNat = sum.toNat % 65536 := by
    rw [UInt32.toNat_and, show (0xFFFF : UInt32).toNat = 2 ^ 16 - 1 from rfl,
      Nat.and_two_pow_sub_one_eq_mod]
  unfold carryAround
  rw [UInt32.toNat_add, hand, shiftRight_16_toNat]
  omega

/-- As many turns as the sum is large are enough. -/
theorem carryFold_rep (turns : Nat) (sum : UInt32) (hturns : sum.toNat ≤ turns) :
    OcRep (carryFold turns sum).toNat sum.toNat := by
  induction turns generalizing sum with
  | zero => exact ⟨by rw [carryFold]; omega, rfl, Iff.rfl⟩
  | succ turns ih =>
    unfold carryFold
    by_cases h : sum >>> 16 = 0
    · rw [if_neg (not_not.mpr h)]
      have h0 := congrArg UInt32.toNat h
      rw [shiftRight_16_toNat, UInt32.toNat_zero] at h0
      exact ⟨by omega, rfl, Iff.rfl⟩
    · rw [if_pos h]
      have h0 : sum.toNat / 65536 ≠ 0 := by
        intro hc
        apply h
        rw [← UInt32.toNat_inj, shiftRight_16_toNat, hc]
        rfl
      have hstep := ih (carryAround sum) (by rw [carryAround_toNat]; omega)
      rw [carryAround_toNat] at hstep
      exact ⟨hstep.lt, by rw [hstep.mod]; omega, by rw [hstep.zero]; omega⟩

/-! ## Words of a byte string -/

/-- The big-endian words of a byte string; a last single byte is padded with zero. -/
def beWords : List UInt8 → List Nat
  | [] => []
  | [last] => [256 * last.toNat]
  | high :: low :: rest => (256 * high.toNat + low.toNat) :: beWords rest

variable (bytes : List UInt8)

theorem beWords_lt : ∀ w ∈ beWords bytes, w < 65536 := by
  induction bytes using beWords.induct with
  | case1 => simp [beWords]
  | case2 last =>
    have := last.toNat_lt
    simp only [beWords, List.mem_singleton, forall_eq]
    omega
  | case3 high low rest ih =>
    have h1 := high.toNat_lt
    have h2 := low.toNat_lt
    simp only [beWords, List.forall_mem_cons]
    exact ⟨by omega, ih⟩

/-- Two bytes are one word. -/
theorem beWords_sum_le : 2 * (beWords bytes).sum ≤ 65535 * (bytes.length + 1) := by
  induction bytes using beWords.induct with
  | case1 => simp [beWords]
  | case2 last =>
    have := last.toNat_lt
    simp only [beWords, List.sum_singleton, List.length_singleton]
    omega
  | case3 high low rest ih =>
    have h1 := high.toNat_lt
    have h2 := low.toNat_lt
    simp only [beWords, List.sum_cons, List.length_cons]
    omega

/-! ## Changing one byte -/

/-- What a byte counts in its word: the first of two is the high one. -/
def byteWeight (k : Nat) : Nat := if k % 2 = 0 then 256 else 1

theorem byteWeight_zero : byteWeight 0 = 256 := rfl

theorem byteWeight_one : byteWeight 1 = 1 := rfl

theorem byteWeight_add_two (k : Nat) : byteWeight (k + 2) = byteWeight k := by
  unfold byteWeight
  rw [Nat.add_mod_right]

theorem beWords_sum_set (k : Nat) (h : k < bytes.length) (byte : UInt8) :
    (beWords (bytes.set k byte)).sum + byteWeight k * (bytes.getD k 0).toNat =
      (beWords bytes).sum + byteWeight k * byte.toNat := by
  induction bytes using beWords.induct generalizing k with
  | case1 => exact absurd h (Nat.not_lt_zero k)
  | case2 last =>
    obtain rfl : k = 0 := by
      rw [List.length_singleton] at h
      omega
    simp only [List.set_cons_zero, beWords, List.sum_singleton, byteWeight_zero,
      List.getD_cons_zero]
    omega
  | case3 high low rest ih =>
    match k, h with
    | 0, _ =>
      simp only [List.set_cons_zero, beWords, List.sum_cons, byteWeight_zero, List.getD_cons_zero]
      omega
    | 1, _ =>
      simp only [List.set_cons_succ, List.set_cons_zero, beWords, List.sum_cons, byteWeight_one,
        List.getD_cons_succ, List.getD_cons_zero]
      omega
    | k + 2, h =>
      have hrest := ih k (by simpa using h)
      simp only [List.set_cons_succ, beWords, List.sum_cons, List.getD_cons_succ]
      rw [byteWeight_add_two]
      omega

/-- A word written over a zero word of its own adds its value. -/
theorem beWords_sum_write {k : Nat} (hk : k % 2 = 0) (h0 : bytes[k]? = some 0)
    (h1 : bytes[k + 1]? = some 0) (high low : UInt8) :
    (beWords ((bytes.set k high).set (k + 1) low)).sum =
      (beWords bytes).sum + (256 * high.toNat + low.toNat) := by
  have hlen : k + 1 < bytes.length := (List.getElem?_eq_some_iff.mp h1).1
  have hhigh := beWords_sum_set bytes k (by omega) high
  have hlow := beWords_sum_set (bytes.set k high) (k + 1) (by simpa using hlen) low
  have hw0 : byteWeight k = 256 := if_pos hk
  have hw1 : byteWeight (k + 1) = 1 := if_neg (by omega)
  rw [List.getD_eq_getElem?_getD, h0, hw0] at hhigh
  rw [List.getD_eq_getElem?_getD, List.getElem?_set_ne (by omega), h1, hw1] at hlow
  simp only [Option.getD_some, UInt8.toNat_zero, Nat.mul_zero, Nat.add_zero] at hhigh hlow
  omega

/-- Flip one bit of a byte. -/
def flipByte (byte : UInt8) (bit : Nat) : UInt8 := byte ^^^ (1 <<< UInt8.ofNat bit)

/-- A flipped bit adds or takes its value. -/
theorem flipByte_toNat (byte : UInt8) {bit : Nat} (h : bit < 8) :
    (flipByte byte bit).toNat = byte.toNat + 2 ^ bit ∨
      byte.toNat = (flipByte byte bit).toNat + 2 ^ bit := by
  have hall : ∀ (n : Fin 256) (b : Fin 8),
      (flipByte (UInt8.ofNat n.val) b.val).toNat = n.val + 2 ^ b.val ∨
        n.val = (flipByte (UInt8.ofNat n.val) b.val).toNat + 2 ^ b.val := by
    decide +kernel
  have := hall ⟨byte.toNat, byte.toNat_lt⟩ ⟨bit, h⟩
  rwa [UInt8.ofNat_toNat] at this

/-- No bit of a word is worth a multiple of 65535. -/
theorem bit_worth {bit : Nat} (h : bit < 8) (k : Nat) :
    0 < byteWeight k * 2 ^ bit ∧ byteWeight k * 2 ^ bit < 65535 := by
  have hall : ∀ b : Fin 8, 0 < 2 ^ b.val ∧ 2 ^ b.val ≤ 128 := by decide
  obtain ⟨hpos, hle⟩ := hall ⟨bit, h⟩
  dsimp only at hpos hle
  unfold byteWeight
  split <;> omega

/-- If a sum of words is all ones, it is not once a bit of one byte is flipped. -/
theorem ocSum_flip {words words' : List Nat} (hw : ∀ w ∈ words, w < 65536)
    (hw' : ∀ w ∈ words', w < 65536) {byte : UInt8} {bit : Nat} (hbit : bit < 8) {k : Nat}
    (hsum : words'.sum + byteWeight k * byte.toNat =
      words.sum + byteWeight k * (flipByte byte bit).toNat)
    (hvalid : ocSum words = 0xFFFF) : ocSum words' ≠ 0xFFFF := by
  intro hvalid'
  obtain ⟨hpos, hlt⟩ := bit_worth hbit k
  have h1 := ((ocSum_rep words hw).all_ones.mp hvalid).2
  have h2 := ((ocSum_rep words' hw').all_ones.mp hvalid').2
  rcases flipByte_toNat byte hbit with hup | hdown
  · rw [hup, Nat.mul_add] at hsum
    omega
  · rw [hdown, Nat.mul_add] at hsum
    omega

end ArgusOs.Lib
