/-
  Decimal numbers at the shell: `parse_u64` of `kernel_shell.c` and `kconsole_write_dec` of
  `kconsole.c`.

  A text is the list of its bytes before the terminating zero. A `char` above 0x7F is negative
  and so below '0'; as a byte it is above '9', and both are turned down. `kconsole_putc` is an
  argument: the characters go to a framebuffer and to the serial line, one after the other.
-/
import ArgusOs.Lib.Word
import Mathlib.Data.Nat.Digits.Lemmas

namespace ArgusOs.Shell

/-! ## Functions -/

/-- The loop of `parse_u64`. -/
def parseDigits (value : UInt64) : List UInt8 → Option UInt64
  | [] => some value
  | c :: rest =>
    if c < 0x30 ∨ c > 0x39 then none
    else
      let digit := (c - 0x30).toUInt64
      if value > (0xFFFFFFFFFFFFFFFF - digit) / 10 then none
      else parseDigits (value * 10 + digit) rest

variable (text : List UInt8)

def parseU64 : Option UInt64 :=
  if text = [] then none else parseDigits 0 text

/-- The loop that fills `buffer`, the last digit first; `none` if its 21 bytes do not suffice. -/
def fillBuffer (value : UInt64) (buffer : List UInt8) : Option (List UInt8) :=
  if value = 0 then some buffer
  else if buffer.length < 21 then
    fillBuffer (value / 10) (buffer ++ [(0x30 + value % 10).toUInt8])
  else none
termination_by value.toNat
decreasing_by
  rename_i hne _
  rw [UInt64.toNat_div]
  exact Nat.div_lt_self (Nat.pos_of_ne_zero fun hc => hne (UInt64.toNat_inj.mp hc)) (by decide)

def kconsoleWriteDec {σ : Type} (putc : σ → UInt8 → σ) (out : σ) (value : UInt64) : Option σ :=
  if value = 0 then some (putc out 0x30)
  else (fillBuffer value []).map fun buffer => buffer.reverse.foldl putc out

/-! ## Numbers -/

def IsDigit (c : UInt8) : Prop := 0x30 ≤ c ∧ c ≤ 0x39

/-- The number that a text continues. -/
def numberFrom (n : Nat) (text : List UInt8) : Nat :=
  text.foldl (fun n c => n * 10 + (c.toNat - 0x30)) n

def number : Nat := numberFrom 0 text

/-- No zero leads, unless it stands alone. -/
def Canonical : Prop := text.head? = some 0x30 → text = [0x30]

theorem le_numberFrom (n : Nat) (text : List UInt8) : n ≤ numberFrom n text := by
  induction text generalizing n with
  | nil => exact Nat.le_refl n
  | cons c rest ih =>
    calc n ≤ n * 10 + (c.toNat - 0x30) := by omega
      _ ≤ numberFrom n (c :: rest) := ih _

/-! ## Parsing -/

variable (value : UInt64)

/-- One turn of the loop: the guard stops exactly the digit that would wrap. -/
theorem guard_iff {c : UInt8} (hc : IsDigit c) :
    ((c - 0x30).toUInt64.toNat = c.toNat - 0x30) ∧
      (value > (0xFFFFFFFFFFFFFFFF - (c - 0x30).toUInt64) / 10 ↔
        2 ^ 64 ≤ value.toNat * 10 + (c.toNat - 0x30)) := by
  obtain ⟨hlow, hhigh⟩ := hc
  have hhigh' : c.toNat ≤ 0x39 := UInt8.le_iff_toNat_le.mp hhigh
  have hdigit : (c - 0x30).toUInt64.toNat = c.toNat - 0x30 := by
    rw [UInt8.toNat_toUInt64, UInt8.toNat_sub_of_le _ _ hlow]
    rfl
  refine ⟨hdigit, ?_⟩
  rw [gt_iff_lt, UInt64.lt_iff_toNat_lt, UInt64.toNat_div, Lib.toNat_room, hdigit]
  show _ / 10 < _ ↔ _
  omega

/-- The loop accepts digits only, and returns the number that they continue. -/
theorem parseDigits_iff (value v : UInt64) (text : List UInt8) :
    parseDigits value text = some v ↔
      (∀ c ∈ text, IsDigit c) ∧ numberFrom value.toNat text = v.toNat := by
  induction text generalizing value with
  | nil => simp [parseDigits, numberFrom, UInt64.toNat_inj]
  | cons c rest ih =>
    by_cases hc : IsDigit c
    · obtain ⟨hdigit, hguard⟩ := guard_iff value hc
      have hin : ¬ (c < 0x30 ∨ c > 0x39) := by
        rw [not_or, UInt8.not_lt, gt_iff_lt, UInt8.not_lt]
        exact hc
      have hnumber : numberFrom value.toNat (c :: rest) =
          numberFrom (value.toNat * 10 + (c.toNat - 0x30)) rest := rfl
      rw [parseDigits, if_neg hin]
      by_cases hwrap : value > (0xFFFFFFFFFFFFFFFF - (c - 0x30).toUInt64) / 10
      · -- the number only grows from here on
        rw [if_pos hwrap, hnumber]
        have hgrows := le_numberFrom (value.toNat * 10 + (c.toNat - 0x30)) rest
        have hover := hguard.mp hwrap
        have hv := v.toNat_lt
        constructor
        · intro hnone
          cases hnone
        · rintro ⟨-, heq⟩
          omega
      · have hnext : (value * 10 + (c - 0x30).toUInt64).toNat =
            value.toNat * 10 + (c.toNat - 0x30) := by
          have hroom := mt hguard.mpr hwrap
          rw [UInt64.toNat_add, UInt64.toNat_mul, hdigit, Nat.mod_add_mod]
          exact Nat.mod_eq_of_lt (by simpa using hroom)
        rw [if_neg hwrap, ih, hnext, hnumber]
        simp [hc]
    · have hout : c < 0x30 ∨ c > 0x39 := by
        by_contra hin
        rw [not_or, UInt8.not_lt, gt_iff_lt, UInt8.not_lt] at hin
        exact hc hin
      rw [parseDigits, if_pos hout]
      simp [hc]

theorem parseU64_iff (v : UInt64) :
    parseU64 text = some v ↔
      text ≠ [] ∧ (∀ c ∈ text, IsDigit c) ∧ number text = v.toNat := by
  unfold parseU64
  by_cases hempty : text = []
  · simp [hempty]
  · rw [if_neg hempty, parseDigits_iff]
    exact ⟨fun h => ⟨hempty, h⟩, And.right⟩

/-! ## Printing -/

def digitChar (digit : Nat) : UInt8 := 0x30 + UInt8.ofNat digit

theorem digitChar_toNat {digit : Nat} (h : digit < 10) :
    (digitChar digit).toNat = 0x30 + digit := by
  unfold digitChar
  rw [UInt8.toNat_add, UInt8.toNat_ofNat_of_lt' (Nat.lt_trans h (by decide))]
  show (48 + digit) % 256 = 48 + digit
  omega

theorem digitChar_mod : (0x30 + value % 10).toUInt8 = digitChar (value.toNat % 10) := by
  have hlt : value.toNat % 10 < 10 := Nat.mod_lt _ (by decide)
  rw [← UInt8.toNat_inj, digitChar_toNat hlt, UInt64.toNat_toUInt8, UInt64.toNat_add,
    UInt64.toNat_mod]
  show (48 + value.toNat % 10) % 2 ^ 64 % 2 ^ 8 = 48 + value.toNat % 10
  omega

theorem digits_ne_nil {value : UInt64} (hne : value ≠ 0) :
    value.toNat ≠ 0 ∧ Nat.digits 10 value.toNat ≠ [] := by
  have hpos : value.toNat ≠ 0 := fun hc => hne (UInt64.toNat_inj.mp hc)
  exact ⟨hpos, Nat.digits_ne_nil_iff_ne_zero.mpr hpos⟩

/-- The buffer takes the digits of the number, as long as it has room for them. -/
theorem fillBuffer_eq (buffer : List UInt8)
    (hroom : buffer.length + (Nat.digits 10 value.toNat).length ≤ 21) :
    fillBuffer value buffer = some (buffer ++ (Nat.digits 10 value.toNat).map digitChar) := by
  fun_induction fillBuffer value buffer with
  | case1 buffer => simp
  | case2 value buffer hne hlt ih =>
    have hdigits : Nat.digits 10 value.toNat =
        value.toNat % 10 :: Nat.digits 10 (value / 10).toNat :=
      Nat.digits_def' (by decide) (Nat.pos_of_ne_zero (digits_ne_nil hne).1)
    rw [hdigits, List.length_cons] at hroom
    rw [ih (by simp only [List.length_append, List.length_singleton]; omega), hdigits,
      List.map_cons, digitChar_mod, List.append_assoc, List.singleton_append]
  | case3 value buffer hne hfull =>
    have := List.length_pos_of_ne_nil (digits_ne_nil hne).2
    omega

/-- Read from the last one on, the digits are the number. -/
theorem number_reverse_digits {digits : List Nat} (h : ∀ d ∈ digits, d < 10) :
    number (digits.map digitChar).reverse = Nat.ofDigits 10 digits := by
  induction digits with
  | nil => rfl
  | cons d rest ih =>
    rw [List.forall_mem_cons] at h
    have hrest : numberFrom 0 (rest.map digitChar).reverse = Nat.ofDigits 10 rest := ih h.2
    unfold number numberFrom at *
    rw [List.map_cons, List.reverse_cons, List.foldl_append, hrest, Nat.ofDigits_cons,
      List.foldl_cons, List.foldl_nil, digitChar_toNat h.1]
    simp
    omega

/-- The characters that `kconsole_write_dec` gives to `kconsole_putc`. -/
def decimalText : List UInt8 :=
  if value = 0 then [0x30] else ((Nat.digits 10 value.toNat).map digitChar).reverse

theorem kconsoleWriteDec_eq {σ : Type} (putc : σ → UInt8 → σ) (out : σ) (value : UInt64) :
    kconsoleWriteDec putc out value = some ((decimalText value).foldl putc out) := by
  unfold kconsoleWriteDec decimalText
  by_cases hzero : value = 0
  · rw [if_pos hzero, if_pos hzero]
    rfl
  · have hlen : (Nat.digits 10 value.toNat).length ≤ 20 := by
      rw [Nat.digits_length_le_iff (by decide)]
      exact Nat.lt_of_lt_of_le value.toNat_lt (by decide)
    rw [if_neg hzero, if_neg hzero, fillBuffer_eq value [] (by simp only [List.length_nil]; omega)]
    rfl

theorem decimalText_canonical : Canonical (decimalText value) := by
  unfold Canonical decimalText
  by_cases hzero : value = 0
  · rw [if_pos hzero]
    exact fun _ => rfl
  · rw [if_neg hzero, List.head?_reverse, List.getLast?_map]
    intro hhead
    obtain ⟨hne, hnil⟩ := digits_ne_nil hzero
    rw [List.getLast?_eq_some_getLast hnil, Option.map_some, Option.some.injEq] at hhead
    have hlt := Nat.digits_lt_base (b := 10) (by decide) (List.getLast_mem hnil)
    have hzero := congrArg UInt8.toNat hhead
    rw [digitChar_toNat hlt] at hzero
    refine absurd ?_ (Nat.getLast_digit_ne_zero 10 hne)
    simpa using hzero

theorem parseU64_decimalText : parseU64 (decimalText value) = some value := by
  rw [parseU64_iff]
  unfold decimalText
  by_cases hzero : value = 0
  · rw [if_pos hzero, hzero]
    simp [IsDigit, number, numberFrom]
  · have hlt : ∀ d ∈ Nat.digits 10 value.toNat, d < 10 := fun d hd =>
      Nat.digits_lt_base (by decide) hd
    rw [if_neg hzero]
    refine ⟨?_, ?_, ?_⟩
    · simpa using (digits_ne_nil hzero).2
    · intro c hc
      rw [List.mem_reverse, List.mem_map] at hc
      obtain ⟨d, hd, rfl⟩ := hc
      have hchar := digitChar_toNat (hlt d hd)
      have := hlt d hd
      unfold IsDigit
      rw [UInt8.le_iff_toNat_le, UInt8.le_iff_toNat_le, hchar]
      show 48 ≤ 48 + d ∧ 48 + d ≤ 57
      omega
    · rw [number_reverse_digits hlt, Nat.ofDigits_digits]

/-- `parse_u64` accepts the numbers below 2^64 in decimal digits, and reads back what
    `kconsole_write_dec` writes. -/
theorem decimal_round_trip :
    (∀ text, (parseU64 text).isSome ↔
      text ≠ [] ∧ (∀ c ∈ text, IsDigit c) ∧ number text < 2 ^ 64) ∧
    (∀ text v, parseU64 text = some v → v.toNat = number text) ∧
    ∀ v, ∃ text,
      (∀ (σ : Type) (putc : σ → UInt8 → σ) (out : σ),
        kconsoleWriteDec putc out v = some (text.foldl putc out)) ∧
      Canonical text ∧ parseU64 text = some v := by
  refine ⟨?_, ?_, ?_⟩
  · intro text
    rw [Option.isSome_iff_exists]
    constructor
    · rintro ⟨v, hv⟩
      obtain ⟨hne, hdigits, hnumber⟩ := (parseU64_iff text v).mp hv
      exact ⟨hne, hdigits, hnumber ▸ v.toNat_lt⟩
    · rintro ⟨hne, hdigits, hlt⟩
      refine ⟨UInt64.ofNat (number text), (parseU64_iff text _).mpr ⟨hne, hdigits, ?_⟩⟩
      rw [UInt64.toNat_ofNat_of_lt' hlt]
  · intro text v hv
    exact ((parseU64_iff text v).mp hv).2.2.symm
  · intro v
    exact ⟨decimalText v, fun _ putc out => kconsoleWriteDec_eq putc out v,
      decimalText_canonical v, parseU64_decimalText v⟩

end ArgusOs.Shell
