/-
  Writing checksums: `checksum_value`, `transport_checksum_value` and `write_be16` of
  `rust_net.rs`.

  The complement of the folded sum is what the checksum field lacks for the sum to be all ones.
  For a transport checksum the code writes all ones instead of zero: both are zero in one's
  complement, and a zero field would mean that there is no checksum.
-/
import ArgusOs.Net.Inspect

namespace ArgusOs.Net

open Lib

def writeBe16 (bytes : List UInt8) (offset : Nat) (value : UInt16) : List UInt8 × Bool :=
  match slice bytes offset (offset + 2) with
  | some [_, _] =>
    ((bytes.set offset (value >>> 8).toUInt8).set (offset + 1) value.toUInt8, true)
  | _ => (bytes, false)

def checksumValue (bytes : List UInt8) : UInt16 := ~~~ checksumFold (checksumAdd 0 bytes)

def transportChecksumValue (source destination : List UInt8) (protocol : UInt8)
    (segment : List UInt8) : UInt16 :=
  let sum := checksumAdd 0 source
  let sum := checksumAdd sum destination
  let sum := sum + protocol.toUInt32
  let sum := sum + UInt32.ofNat segment.length
  let value := ~~~ checksumFold (checksumAdd sum segment)
  if value = 0 then 0xFFFF else value

/-! ## The loop of `checksum_fold` -/

/-- The loop ends: after some turns there is no carry left, and the result is what it then holds. -/
theorem carryFold_exits (turns : Nat) (sum : UInt32) (hturns : sum.toNat ≤ turns) :
    ∃ k, carryAround^[k] sum >>> 16 = 0 ∧ (∀ j < k, carryAround^[j] sum >>> 16 ≠ 0) ∧
      carryFold turns sum = carryAround^[k] sum := by
  induction turns generalizing sum with
  | zero =>
    obtain rfl : sum = 0 := UInt32.toNat_inj.mp (Nat.le_zero.mp hturns)
    exact ⟨0, rfl, fun j hj => absurd hj (Nat.not_lt_zero j), rfl⟩
  | succ turns ih =>
    unfold carryFold
    by_cases h : sum >>> 16 = 0
    · rw [if_neg (not_not.mpr h)]
      exact ⟨0, h, fun j hj => absurd hj (Nat.not_lt_zero j), rfl⟩
    · have h0 : sum.toNat / 65536 ≠ 0 := by
        intro hc
        apply h
        rw [← UInt32.toNat_inj, shiftRight_16_toNat, hc]
        rfl
      obtain ⟨k, hk, hbefore, hfold⟩ := ih (carryAround sum) (by rw [carryAround_toNat]; omega)
      rw [if_pos h]
      refine ⟨k + 1, by rw [Function.iterate_succ_apply]; exact hk, fun j hj => ?_,
        by rw [Function.iterate_succ_apply]; exact hfold⟩
      cases j with
      | zero => exact h
      | succ j =>
        rw [Function.iterate_succ_apply]
        exact hbefore j (by omega)

/-! ## Writing the field -/

/-- The bytes of `value` are what `write_be16` stores. -/
theorem bytes_of_value (value : UInt16) :
    256 * (value >>> 8).toUInt8.toNat + value.toUInt8.toNat = value.toNat := by
  have hlt := value.toNat_lt
  rw [UInt16.toNat_toUInt8, UInt16.toNat_toUInt8, UInt16.toNat_shiftRight,
    show (8 : UInt16).toNat % 16 = 8 from rfl, Nat.shiftRight_eq_div_pow]
  omega

/-- The field at `k` of a byte string is there, stands at an even place and is zero. -/
structure ZeroField (bytes : List UInt8) (k : Nat) : Prop where
  even : k % 2 = 0
  high : bytes[k]? = some 0
  low : bytes[k + 1]? = some 0

namespace ZeroField

variable {bytes : List UInt8} {k : Nat}

theorem writeBe16_eq (h : ZeroField bytes k) (value : UInt16) :
    writeBe16 bytes k value =
      ((bytes.set k (value >>> 8).toUInt8).set (k + 1) value.toUInt8, true) := by
  have hlen : k + 1 < bytes.length := (List.getElem?_eq_some_iff.mp h.low).1
  unfold writeBe16
  rw [slice_eq (by omega) (by omega), bytesFrom_two (by omega)]

theorem writeBe16_sum (h : ZeroField bytes k) (value : UInt16) :
    (beWords (writeBe16 bytes k value).1).sum = (beWords bytes).sum + value.toNat := by
  rw [h.writeBe16_eq, beWords_sum_write bytes h.even h.high h.low, bytes_of_value]

theorem writeBe16_length (h : ZeroField bytes k) (value : UInt16) :
    (writeBe16 bytes k value).1.length = bytes.length := by
  rw [h.writeBe16_eq, List.length_set, List.length_set]

theorem readBe16_write (h : ZeroField bytes k) (value : UInt16) :
    readBe16 (writeBe16 bytes k value).1 k = some value := by
  have hlen : k + 1 < bytes.length := (List.getElem?_eq_some_iff.mp h.low).1
  have hat : be16At (writeBe16 bytes k value).1 k = value.toNat := by
    unfold be16At byteAt
    rw [h.writeBe16_eq, ← bytes_of_value, List.getD_eq_getElem?_getD, List.getD_eq_getElem?_getD,
      List.getElem?_set_ne (by omega), List.getElem?_set_self (by omega),
      List.getElem?_set_self (by simpa using hlen)]
    rfl
  rw [readBe16_eq (by rw [h.writeBe16_length]; omega), hat, UInt16.ofNat_toNat]

end ZeroField

theorem complement_toNat (value : UInt16) : (~~~ value).toNat = 65535 - value.toNat :=
  UInt16.toNat_not value

/-- The complement of the folded sum makes a sum all ones. -/
theorem checksumFold_complement (sum : UInt32) {sum' : UInt32}
    (h : sum'.toNat = sum.toNat + (~~~ checksumFold sum).toNat) : checksumFold sum' = 0xFFFF := by
  rw [← UInt16.toNat_inj]
  apply (checksumFold_rep sum').all_ones.mpr
  rw [h, complement_toNat]
  exact (checksumFold_rep sum).complement

/-- A sum whose complement is zero is all ones already, and stays so with all ones added. -/
theorem checksumFold_present (sum : UInt32) {sum' : UInt32} (h : sum'.toNat = sum.toNat +
      (if ~~~ checksumFold sum = 0 then 0xFFFF else ~~~ checksumFold sum).toNat) :
    checksumFold sum' = 0xFFFF := by
  split at h
  · next hzero =>
    have hrep := (checksumFold_rep sum).complement
    have hnone : 65535 - (checksumFold sum).toNat = 0 := by
      rw [← complement_toNat, hzero]
      rfl
    rw [hnone] at hrep
    rw [← UInt16.toNat_inj]
    apply (checksumFold_rep sum').all_ones.mpr
    rw [h, show (0xFFFF : UInt16).toNat = 65535 from rfl]
    omega
  · exact checksumFold_complement sum h

theorem checksumValue_valid {bytes : List UInt8} {k : Nat} (hlen : bytes.length ≤ 65535)
    (h : ZeroField bytes k) : checksumValid (writeBe16 bytes k (checksumValue bytes)).1 = true := by
  unfold checksumValid
  rw [decide_eq_true_iff]
  apply checksumFold_complement (checksumAdd 0 bytes)
  rw [checksumAdd_zero _ (by rw [h.writeBe16_length]; exact hlen), h.writeBe16_sum,
    checksumAdd_zero bytes hlen]
  rfl

section Transport
variable {source destination segment : List UInt8} {protocol : UInt8} {k : Nat}

theorem transportChecksumValue_ne_zero :
    transportChecksumValue source destination protocol segment ≠ 0 := by
  unfold transportChecksumValue
  dsimp only
  split
  · decide
  · assumption

theorem transportChecksumValue_valid (hs : source.length = 4) (hd : destination.length = 4)
    (hlen : segment.length ≤ 65535) (h : ZeroField segment k) :
    transportChecksumValid source destination protocol
      (writeBe16 segment k (transportChecksumValue source destination protocol segment)).1 =
        true := by
  have hlen' := h.writeBe16_length (transportChecksumValue source destination protocol segment)
  have hsum := h.writeBe16_sum (transportChecksumValue source destination protocol segment)
  generalize writeBe16 segment k (transportChecksumValue source destination protocol segment) =
    written at hlen' hsum
  have hcond : ¬ (source.length ≠ 4 ∨ destination.length ≠ 4 ∨ written.1.length > 0xFFFF) := by
    omega
  unfold transportChecksumValid
  rw [if_neg hcond]
  dsimp only
  rw [decide_eq_true_iff]
  apply checksumFold_present (transportSum source destination protocol segment.length segment)
  show (transportSum source destination protocol written.1.length written.1).toNat =
    (transportSum source destination protocol segment.length segment).toNat +
      (transportChecksumValue source destination protocol segment).toNat
  rw [hlen', transportSum_toNat protocol hs hd hlen (hlen'.trans_le hlen),
    transportSum_toNat protocol hs hd hlen hlen]
  simp only [List.sum_append, hsum]
  omega

end Transport

/-! ## Generation and validation -/

/-- Writing the value of a checksum into its zero field makes the checksum valid, and the field of
    a transport checksum is not zero then. None of the sums wraps, and `checksum_fold` ends with a
    word that stands for the sum. -/
theorem checksum_round_trip :
    (∀ bytes k, bytes.length ≤ 65535 → ZeroField bytes k →
      (writeBe16 bytes k (checksumValue bytes)).2 = true ∧
        checksumValid (writeBe16 bytes k (checksumValue bytes)).1 = true) ∧
    (∀ source destination protocol segment k, source.length = 4 → destination.length = 4 →
      segment.length ≤ 65535 → ZeroField segment k →
      ∃ written value,
        writeBe16 segment k (transportChecksumValue source destination protocol segment) =
            (written, true) ∧
          transportChecksumValid source destination protocol written = true ∧
          readBe16 written k = some value ∧ value ≠ 0) ∧
    (∀ bytes : List UInt8, bytes.length ≤ 65535 → ∀ n,
      (checksumAdd 0 (bytes.take n)).toNat = (beWords (bytes.take n)).sum) ∧
    (∀ (source destination : List UInt8) (protocol : UInt8) (segment : List UInt8),
      source.length = 4 → destination.length = 4 → segment.length ≤ 65535 → ∀ n,
      (transportSum source destination protocol segment.length (segment.take n)).toNat =
        (beWords source).sum + (beWords destination).sum + protocol.toNat + segment.length +
          (beWords (segment.take n)).sum) ∧
    ∀ sum : UInt32, (∃ turns, carryAround^[turns] sum >>> 16 = 0 ∧
        (∀ j < turns, carryAround^[j] sum >>> 16 ≠ 0) ∧
        checksumFold sum = (carryAround^[turns] sum).toUInt16) ∧
      (checksumFold sum).toNat % 65535 = sum.toNat % 65535 ∧ (checksumFold sum = 0 → sum = 0) := by
  refine ⟨fun bytes k hlen h => ⟨by rw [h.writeBe16_eq], checksumValue_valid hlen h⟩,
    fun source destination protocol segment k hs hd hlen h => ?_, fun bytes hlen n => ?_,
    fun source destination protocol segment hs hd hlen n => ?_, fun sum =>
      ⟨?_, ?_, fun hzero => ?_⟩⟩
  · exact ⟨_, _, Prod.ext rfl (by rw [h.writeBe16_eq]), transportChecksumValue_valid hs hd hlen h,
      h.readBe16_write _, transportChecksumValue_ne_zero⟩
  · exact checksumAdd_zero _ ((List.length_take_le' n bytes).trans hlen)
  · rw [transportSum_toNat protocol hs hd hlen ((List.length_take_le' n segment).trans hlen)]
    simp only [List.sum_append, List.sum_cons, List.sum_nil]
    omega
  · obtain ⟨turns, hend, hgo, hfold⟩ := carryFold_exits sum.toNat sum (Nat.le_refl _)
    exact ⟨turns, hend, hgo, by rw [checksumFold, hfold]⟩
  · exact (checksumFold_rep sum).mod
  · apply UInt32.toNat_inj.mp
    exact (checksumFold_rep sum).zero.mp (by rw [hzero]; rfl)

/-- A header with a zero field, and a segment whose sum is all ones before its checksum is
    written. -/
theorem checksum_round_trip_sample :
    checksumValid (writeBe16 [0x45, 0, 0, 0] 2 (checksumValue [0x45, 0, 0, 0])).1 = true ∧
      (∃ written value, writeBe16 [0, 0] 0
          (transportChecksumValue [0, 0, 0, 0] [0xFF, 0xEC, 0, 0] 17 [0, 0]) = (written, true) ∧
        transportChecksumValid [0, 0, 0, 0] [0xFF, 0xEC, 0, 0] 17 written = true ∧
        readBe16 written 0 = some value ∧ value ≠ 0) :=
  ⟨(checksum_round_trip.1 [0x45, 0, 0, 0] 2 (by decide) ⟨by decide, by decide, by decide⟩).2,
    checksum_round_trip.2.1 [0, 0, 0, 0] [0xFF, 0xEC, 0, 0] 17 [0, 0] 0 (by decide) (by decide)
      (by decide) ⟨by decide, by decide, by decide⟩⟩

end ArgusOs.Net
