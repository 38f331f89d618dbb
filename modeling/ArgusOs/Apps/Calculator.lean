/-
  The calculator: `user/calculator.cpp`.

  `Calculator` and `input` are the class and its key handler. The 64-bit values are integers
  here; `inputChecked` is the handler with every operation on them checked, and the two are the
  same on every run (`calculator_range`).

  `value` is the meaning of an expression, from left to right. The handler agrees with it as
  long as no accumulator is held when the expression begins. After `=` one is held, the first
  operator finds nothing pending and does not take the number that was typed, and the
  expression goes on from the result of the one before (`evaluates_iff`).
-/
import Mathlib

namespace ArgusOs.Apps

def kLimit : Int := 999999999

inductive Operation
  | add
  | subtract
  | multiply
  | divide
  deriving DecidableEq

def Operation.key : Operation → UInt64
  | .add => 0x2B
  | .subtract => 0x2D
  | .multiply => 0x2A
  | .divide => 0x2F

/-- The result of an operation; the division of C++ rounds toward zero. -/
def Operation.result (operation : Operation) (a b : Int) : Int :=
  match operation with
  | .add => a + b
  | .subtract => a - b
  | .multiply => a * b
  | .divide => a.tdiv b

def equalsKey : UInt64 := 0x3D
def clearKey : UInt64 := 0x43

structure Calculator where
  current : Int := 0
  accumulator : Int := 0
  pending : Option Operation := none
  entering : Bool := true
  hasAccumulator : Bool := false
  error : Bool := false
  dirty : Bool := true
  deriving DecidableEq

variable {c : Calculator} {operation : Operation}

namespace Calculator

def clear (c : Calculator) : Calculator :=
  { c with
    current := 0
    accumulator := 0
    pending := none
    entering := true
    hasAccumulator := false
    error := false
    dirty := true }

variable (c)

def commit : Calculator :=
  if !c.hasAccumulator then { c with accumulator := c.current, hasAccumulator := true }
  else
    match c.pending with
    | none => c
    | some operation =>
      if !c.entering then c
      else
        let zeroDivisor : Bool := operation = .divide ∧ c.current = 0
        let result :=
          if zeroDivisor then c.accumulator else operation.result c.accumulator c.current
        let error := c.error || zeroDivisor || (result > kLimit || result < -kLimit)
        if error then
          { c with error := true, current := 0, accumulator := 0, hasAccumulator := false }
        else { c with current := result, accumulator := result }

/-- The operator keys. -/
def operationOf (key : UInt64) : Option Operation :=
  if key = 0x2B then some .add
  else if key = 0x2D then some .subtract
  else if key = 0x2A then some .multiply
  else if key = 0x2F then some .divide
  else none

def input (key : UInt64) : Calculator :=
  if 0x30 ≤ key ∧ key ≤ 0x39 then
    let digit : Int := (key - 0x30).toNat
    let c := if !c.entering then { c with current := 0, entering := true } else c
    let c := if c.current ≤ (kLimit - digit).tdiv 10 then
        { c with current := c.current * 10 + digit }
      else c
    { c with error := false, dirty := true }
  else if key = 0x08 then { c with current := c.current.tdiv 10, dirty := true }
  else if key = 0x63 ∨ key = 0x43 then c.clear
  else
    match operationOf key with
    | some operation =>
      { c.commit with pending := some operation, entering := false, dirty := true }
    | none =>
      if key = 0x3D ∨ key = 0x0A ∨ key = 0x0D then
        { c.commit with pending := none, entering := false, dirty := true }
      else c

/-- What `draw` puts on the display: the number, or ERROR. -/
def shown : Option Int := if c.error then none else some c.current

def run (keys : List UInt64) : Calculator := keys.foldl input c

theorem run_append (first second : List UInt64) :
    c.run (first ++ second) = (c.run first).run second := List.foldl_append

@[simp] theorem run_cons (key : UInt64) (rest : List UInt64) :
    c.run (key :: rest) = (c.input key).run rest := rfl

variable {c}

end Calculator

/-! ## Expressions -/

/-- A number as it is typed. -/
abbrev Digits := List (Fin 10)

def digitKey (digit : Fin 10) : UInt64 := 0x30 + UInt64.ofNat digit.val

/-- The number of digits typed behind another one. -/
def numeralFrom (n : Nat) (digits : Digits) : Nat := digits.foldl (fun n d => n * 10 + d.val) n

def numeral (digits : Digits) : Nat := numeralFrom 0 digits

/-- An operation within the limit; none if the divisor is zero or the result is too large. -/
def Operation.apply (operation : Operation) (a b : Int) : Option Int :=
  let result := operation.result a b
  if (operation = .divide ∧ b = 0) ∨ result > kLimit ∨ result < -kLimit then none else some result

/-- What follows the first number. -/
abbrev Tail := List (Operation × Digits)

/-- The value from left to right, if every partial result is within the limit and no divisor
    is zero. -/
def value (a : Int) : Tail → Option Int
  | [] => some a
  | (operation, digits) :: rest => (operation.apply a (numeral digits)).bind fun b => value b rest

def tailKeys (rest : Tail) : List UInt64 :=
  rest.flatMap fun t => t.1.key :: t.2.map digitKey

def expressionKeys (first : Digits) (rest : Tail) : List UInt64 :=
  first.map digitKey ++ tailKeys rest ++ [equalsKey]

/-- Every number is typed with one to nine digits. -/
def WellTyped (first : Digits) (rest : Tail) : Prop :=
  ∀ digits ∈ first :: rest.map Prod.snd, digits ≠ [] ∧ digits.length ≤ 9

/-- What the handler carries on from operator to operator. Without an accumulator, as after an
    error, the number that was typed is taken as it is. -/
def carry (held : Option Int) (t : Operation × Digits) : Option Int :=
  match held with
  | some a => t.1.apply a (numeral t.2)
  | none => some (numeral t.2)

theorem foldl_carry_value {a v : Int} {rest : Tail} (h : value a rest = some v) :
    rest.foldl carry (some a) = some v := by
  induction rest generalizing a with
  | nil => exact h
  | cons t rest ih =>
    obtain ⟨operation, digits⟩ := t
    obtain ⟨b, hb, hrest⟩ := Option.bind_eq_some_iff.mp h
    rw [List.foldl_cons, show carry (some a) (operation, digits) = some b from hb]
    exact ih hrest

/-! ## Typing a number -/

theorem digitKey_spec (digit : Fin 10) :
    (0x30 ≤ digitKey digit ∧ digitKey digit ≤ 0x39) ∧
    (digitKey digit - 0x30).toNat = digit.val := by
  revert digit
  decide

namespace Calculator

theorem input_digit {n : Nat} (digit : Fin 10) (hn : n < 10 ^ 8)
    (hc : c.entering = true ∧ c.current = n ∨ c.entering = false ∧ n = 0) :
    c.input (digitKey digit) =
      { c with
        current := (n * 10 + digit.val : Nat), entering := true, error := false,
        dirty := true } := by
  obtain ⟨hkey, hdigit⟩ := digitKey_spec digit
  have hroom : (n : Int) ≤ (kLimit - (digit.val : Int)).tdiv 10 := by
    rw [Int.tdiv_eq_ediv_of_nonneg (by unfold kLimit; omega)]
    unfold kLimit
    omega
  unfold input
  rw [if_pos hkey, hdigit]
  rcases hc with ⟨hentering, hcurrent⟩ | ⟨hentering, rfl⟩
  · simp only [hentering, hcurrent, Bool.not_true, Bool.false_eq_true, if_false, if_pos hroom]
    rfl
  · simp only [hentering, Bool.not_false, if_true]
    rw [if_pos (by simpa using hroom)]
    simp

theorem run_digits {n j : Nat} (digits : Digits) (hn : n < 10 ^ j) (hj : j + digits.length ≤ 9)
    (hc : c.entering = true ∧ c.current = n) (herror : c.error = false) (hdirty : c.dirty = true) :
    c.run (digits.map digitKey) = { c with current := (numeralFrom n digits : Nat) } := by
  induction digits generalizing c n j with
  | nil =>
    show c = _
    rw [show numeralFrom n [] = n from rfl, ← hc.2]
  | cons digit rest ih =>
    rw [List.length_cons] at hj
    have hpow : 10 ^ j ≤ 10 ^ 8 := Nat.pow_le_pow_right (by omega) (by omega)
    have hnext : n * 10 + digit.val < 10 ^ (j + 1) := by
      omega
    rw [List.map_cons, run_cons, input_digit digit (by omega) (Or.inl hc), ih hnext (by omega)]
    · simp only [hc.1, herror, hdirty]
      rfl
    · exact ⟨rfl, rfl⟩
    · rfl
    · rfl

/-- The state when a number has been typed. -/
def withNumber (c : Calculator) (digits : Digits) : Calculator :=
  { c with current := (numeral digits : Nat), entering := true, error := false, dirty := true }

theorem run_number {digits : Digits} (hne : digits ≠ []) (hlen : digits.length ≤ 9)
    (hc : c.entering = true ∧ c.current = 0 ∨ c.entering = false) :
    c.run (digits.map digitKey) = c.withNumber digits := by
  obtain ⟨digit, rest, rfl⟩ := List.exists_cons_of_ne_nil hne
  have hfirst := input_digit (c := c) (n := 0) digit (by decide) (by simpa using hc)
  rw [List.map_cons, run_cons, hfirst]
  rw [List.length_cons] at hlen
  rw [run_digits (n := 0 * 10 + digit.val) (j := 1) rest (by omega) (by omega) ⟨rfl, rfl⟩ rfl rfl]
  rfl

/-! ## From operator to operator -/

/-- What the handler carries when no number is being typed. -/
structure Carries (c : Calculator) (held : Option Int) : Prop where
  entering : c.entering = false
  held_eq : held = if c.hasAccumulator then some c.accumulator else none

theorem operationOf_key (operation : Operation) :
    ¬ (0x30 ≤ operation.key ∧ operation.key ≤ 0x39) ∧ operation.key ≠ 0x08 ∧
      ¬ (operation.key = 0x63 ∨ operation.key = 0x43) ∧
      operationOf operation.key = some operation := by
  cases operation <;> decide

theorem input_operation (c : Calculator) (operation : Operation) :
    c.input operation.key =
      { c.commit with pending := some operation, entering := false, dirty := true } := by
  obtain ⟨hdigit, hback, hclear, hkey⟩ := operationOf_key operation
  unfold input
  rw [if_neg hdigit, if_neg hback, if_neg hclear, hkey]

/-- The state after an operation, by its result. -/
def settle (c : Calculator) : Option Int → Calculator
  | some result => { c with current := result, accumulator := result }
  | none => { c with error := true, current := 0, accumulator := 0, hasAccumulator := false }

/-- The pending operator applied to the number that was typed. -/
theorem commit_apply (hhas : c.hasAccumulator = true) (hpending : c.pending = some operation)
    (hentering : c.entering = true) (herror : c.error = false) :
    c.commit = c.settle (operation.apply c.accumulator c.current) := by
  unfold commit Operation.apply
  simp only [hhas, hpending, hentering, herror, Bool.not_true, Bool.false_eq_true, if_false,
    Bool.false_or]
  by_cases hzero : operation = .divide ∧ c.current = 0
  · obtain ⟨rfl, hdivisor⟩ := hzero
    simp [hdivisor, settle, hpending, hentering]
  · simp only [hzero, decide_false, Bool.false_eq_true, if_false, Bool.false_or, false_or,
      Bool.or_eq_true, decide_eq_true_iff]
    split
    · simp [settle, hpending, hentering]
    · simp [settle, hpending, hentering, hhas, herror]

/-- Once a number is typed behind an operator, the handler carries on with the result. -/
theorem commit_number {held : Option Int} (digits : Digits) (hc : c.Carries held)
    (hpending : c.pending = some operation) :
    (if (c.withNumber digits).commit.hasAccumulator then
        some (c.withNumber digits).commit.accumulator else none) = carry held (operation, digits) ∧
      (c.withNumber digits).commit.shown = carry held (operation, digits) := by
  have hheld := hc.held_eq
  subst hheld
  cases hhas : c.hasAccumulator with
  | false => simp [commit, withNumber, hhas, carry, shown]
  | true =>
    rw [commit_apply (c := c.withNumber digits) hhas hpending rfl rfl, if_pos rfl]
    show _ = operation.apply c.accumulator (numeral digits : Nat) ∧
      _ = operation.apply c.accumulator (numeral digits : Nat)
    generalize houtcome :
      operation.apply (c.withNumber digits).accumulator (c.withNumber digits).current = outcome
    rw [show operation.apply c.accumulator (numeral digits : Nat) = outcome from houtcome]
    cases outcome with
    | none => exact ⟨rfl, rfl⟩
    | some result => exact ⟨if_pos hhas, rfl⟩

theorem run_tail {held : Option Int} {digits : Digits} (rest : Tail) (hc : c.Carries held)
    (hpending : c.pending = some operation) (htyped : WellTyped digits rest) :
    (c.run (digits.map digitKey ++ tailKeys rest ++ [equalsKey])).shown =
      ((operation, digits) :: rest).foldl carry held := by
  induction rest generalizing c held operation digits with
  | nil =>
    obtain ⟨hne, hlen⟩ := htyped digits (List.mem_cons_self ..)
    rw [show tailKeys [] = [] from rfl, List.append_nil, run_append,
      run_number hne hlen (Or.inr hc.entering)]
    exact (commit_number digits hc hpending).2
  | cons t rest ih =>
    obtain ⟨hne, hlen⟩ := htyped digits (List.mem_cons_self ..)
    obtain ⟨next, digits'⟩ := t
    rw [show tailKeys ((next, digits') :: rest) =
      next.key :: (digits'.map digitKey ++ tailKeys rest)
      from rfl, List.append_assoc, List.cons_append, run_append,
      run_number hne hlen (Or.inr hc.entering), run_cons, input_operation]
    refine ih ⟨rfl, ?_⟩ rfl fun d hd => htyped d (List.mem_cons_of_mem _ hd)
    exact (commit_number digits hc hpending).1.symm

/-- The states in which an expression begins: at the start, and after `=` or `C`. -/
inductive Ready : Calculator → Prop
  | start : Ready {}
  | after (keys : List UInt64) (last : UInt64) (h : last = equalsKey ∨ last = clearKey) :
      Ready (({} : Calculator).run (keys ++ [last]))

theorem Ready.state (h : Ready c) :
    c.pending = none ∧ (c.entering = true ∧ c.current = 0 ∨ c.entering = false) := by
  cases h with
  | start => exact ⟨rfl, Or.inl ⟨rfl, rfl⟩⟩
  | after keys last hlast =>
    rw [run_append]
    rcases hlast with rfl | rfl
    · exact ⟨rfl, Or.inr rfl⟩
    · exact ⟨rfl, Or.inl ⟨rfl, rfl⟩⟩

/-- What an expression shows, from where it starts. -/
theorem run_expression (hc : Ready c) {first : Digits} {rest : Tail} (htyped : WellTyped first rest)
    (hrest : rest ≠ []) :
    (c.run (expressionKeys first rest)).shown =
      rest.foldl carry (some (if c.hasAccumulator then c.accumulator else numeral first)) := by
  obtain ⟨hpending, hentering⟩ := hc.state
  obtain ⟨⟨operation, digits⟩, rest, rfl⟩ := List.exists_cons_of_ne_nil hrest
  obtain ⟨hne, hlen⟩ := htyped first (List.mem_cons_self ..)
  unfold expressionKeys
  rw [show tailKeys ((operation, digits) :: rest) =
    operation.key :: (digits.map digitKey ++ tailKeys rest) from rfl, List.append_assoc,
    List.cons_append, run_append, run_number hne hlen hentering, run_cons, input_operation]
  refine run_tail rest ⟨rfl, ?_⟩ rfl fun d hd => htyped d (List.mem_cons_of_mem _ hd)
  -- the first operator finds nothing pending: it takes the number only if none is held
  cases hhas : c.hasAccumulator with
  | false => simp [commit, withNumber, hhas]
  | true => simp [commit, withNumber, hhas, hpending]

/-! ## Range -/

/-- A result that `int64_t` can hold. -/
def int64 (v : Int) : Option Int := if -2 ^ 63 ≤ v ∧ v < 2 ^ 63 then some v else none

/-- A division of `int64_t`. -/
def quotient (a b : Int) : Option Int := if b = 0 then none else int64 (a.tdiv b)

def resultChecked (operation : Operation) (a b : Int) : Option Int :=
  match operation with
  | .add => int64 (a + b)
  | .subtract => int64 (a - b)
  | .multiply => int64 (a * b)
  | .divide => quotient a b

/-- `commit`; none if an operation overflows or divides by zero. -/
def commitChecked (c : Calculator) : Option Calculator :=
  if !c.hasAccumulator then some { c with accumulator := c.current, hasAccumulator := true }
  else
    match c.pending with
    | none => some c
    | some operation =>
      if !c.entering then some c
      else
        let zeroDivisor : Bool := operation = .divide ∧ c.current = 0
        (if zeroDivisor then some c.accumulator
          else resultChecked operation c.accumulator c.current).map fun result =>
            if c.error || zeroDivisor || (result > kLimit || result < -kLimit) then
              { c with error := true, current := 0, accumulator := 0, hasAccumulator := false }
            else { c with current := result, accumulator := result }

/-- The digit behind the number, as far as there is room. -/
def appendChecked (current digit : Int) : Option Int :=
  (int64 (kLimit - digit)).bind fun room =>
    (quotient room 10).bind fun bound =>
      if current ≤ bound then (int64 (current * 10)).bind fun tens => int64 (tens + digit)
      else some current

/-- `input`; none if an operation overflows or divides by zero. -/
def inputChecked (c : Calculator) (key : UInt64) : Option Calculator :=
  if 0x30 ≤ key ∧ key ≤ 0x39 then
    let c := if !c.entering then { c with current := 0, entering := true } else c
    (appendChecked c.current (key - 0x30).toNat).map fun current =>
      { c with current := current, error := false, dirty := true }
  else if key = 0x08 then
    (quotient c.current 10).map fun current => { c with current := current, dirty := true }
  else if key = 0x63 ∨ key = 0x43 then some c.clear
  else
    match operationOf key with
    | some operation => c.commitChecked.map fun c =>
      { c with pending := some operation, entering := false, dirty := true }
    | none =>
      if key = 0x3D ∨ key = 0x0A ∨ key = 0x0D then
        c.commitChecked.map fun c => { c with pending := none, entering := false, dirty := true }
      else some c

def runChecked (c : Calculator) (keys : List UInt64) : Option Calculator :=
  keys.foldlM inputChecked c

def WithinLimit (v : Int) : Prop := -kLimit ≤ v ∧ v ≤ kLimit

structure InRange (c : Calculator) : Prop where
  current : WithinLimit c.current
  accumulator : WithinLimit c.accumulator
  entering : c.entering = true → 0 ≤ c.current ∧ c.error = false

theorem withinLimit_zero : WithinLimit 0 := ⟨by decide, by decide⟩

theorem int64_eq {v : Int} (h : -2 ^ 63 ≤ v ∧ v < 2 ^ 63) : int64 v = some v := if_pos h

theorem tdiv_withinLimit {a : Int} (h : WithinLimit a) (b : Int) : WithinLimit (a.tdiv b) := by
  unfold WithinLimit at *
  have := Int.natAbs_tdiv_le_natAbs a b
  omega

theorem int64_withinLimit {v : Int} (h : WithinLimit v) : int64 v = some v := by
  unfold WithinLimit kLimit at h
  exact int64_eq (by omega)

theorem quotient_eq {a b : Int} (h : WithinLimit a) (hb : b ≠ 0) :
    quotient a b = some (a.tdiv b) := by
  unfold quotient
  rw [if_neg hb, int64_withinLimit (tdiv_withinLimit h b)]

theorem resultChecked_eq {a b : Int} (ha : WithinLimit a) (hb : WithinLimit b)
    (hzero : ¬ (operation = .divide ∧ b = 0)) :
    resultChecked operation a b = some (operation.result a b) := by
  cases operation with
  | divide => exact quotient_eq ha fun hc => hzero ⟨rfl, hc⟩
  | multiply =>
    -- the product of two numbers of nine digits has at most eighteen
    have hprod : (a * b).natAbs ≤ 999999999 * 999999999 := by
      rw [Int.natAbs_mul]
      unfold WithinLimit kLimit at ha hb
      exact Nat.mul_le_mul (by omega) (by omega)
    exact int64_eq (by omega)
  | add | subtract =>
    unfold WithinLimit kLimit at ha hb
    exact int64_eq (by omega)

/-- A digit keeps the number in the range. -/
theorem appendChecked_eq {current digit : Int} (hcurrent : 0 ≤ current ∧ current ≤ kLimit)
    (hdigit : 0 ≤ digit ∧ digit ≤ 9) :
    let next := if current ≤ (kLimit - digit).tdiv 10 then current * 10 + digit else current
    appendChecked current digit = some next ∧ 0 ≤ next ∧ next ≤ kLimit := by
  have hroom : WithinLimit (kLimit - digit) := by unfold WithinLimit kLimit; omega
  have hbound : (kLimit - digit).tdiv 10 = (kLimit - digit) / 10 :=
    Int.tdiv_eq_ediv_of_nonneg (by unfold kLimit; omega)
  unfold appendChecked
  rw [int64_withinLimit hroom, Option.bind_some, quotient_eq hroom (by decide),
    Option.bind_some, hbound]
  split
  · have hnext : current * 10 + digit ≤ kLimit := by unfold kLimit at *; omega
    unfold kLimit at hcurrent
    rw [int64_eq (by omega), Option.bind_some, int64_eq (by unfold kLimit at hnext; omega)]
    exact ⟨rfl, by omega, hnext⟩
  · exact ⟨rfl, hcurrent⟩

theorem commitChecked_eq (h : c.InRange) :
    c.commitChecked = some c.commit ∧ WithinLimit c.commit.current ∧
      WithinLimit c.commit.accumulator := by
  unfold commitChecked commit
  split
  · exact ⟨rfl, h.current, h.current⟩
  · cases hpending : c.pending with
    | none => exact ⟨rfl, h.current, h.accumulator⟩
    | some operation =>
      dsimp only
      split
      · exact ⟨rfl, h.current, h.accumulator⟩
      · have hresult : (if decide (operation = .divide ∧ c.current = 0) = true
            then some c.accumulator
            else resultChecked operation c.accumulator c.current) =
            some (if decide (operation = .divide ∧ c.current = 0) = true then c.accumulator
              else operation.result c.accumulator c.current) := by
          split
          · rfl
          · rename_i hzero
            exact resultChecked_eq h.accumulator h.current (by simpa using hzero)
        rw [hresult, Option.map_some]
        refine ⟨rfl, ?_⟩
        generalize (if decide (operation = .divide ∧ c.current = 0) = true then c.accumulator
          else operation.result c.accumulator c.current) = result
        split
        · exact ⟨withinLimit_zero, withinLimit_zero⟩
        · rename_i herror
          simp only [Bool.or_eq_true, decide_eq_true_iff, not_or, gt_iff_lt, Int.not_lt] at herror
          exact ⟨⟨herror.2.2, herror.2.1⟩, herror.2.2, herror.2.1⟩

/-- A key neither overflows nor leaves the range. -/
theorem inputChecked_eq (h : c.InRange) (key : UInt64) :
    c.inputChecked key = some (c.input key) ∧ (c.input key).InRange := by
  obtain ⟨hcommit, hcurrent, haccumulator⟩ := commitChecked_eq h
  unfold inputChecked input
  split
  · -- a digit: the number starts at zero, or goes on from one that is not negative
    rename_i hkey
    have hdigit : (0 : Int) ≤ (key - 0x30).toNat ∧ ((key - 0x30).toNat : Int) ≤ 9 := by
      rw [UInt64.toNat_sub_of_le _ _ hkey.1]
      have hhigh : key.toNat ≤ 0x39 := UInt64.le_iff_toNat_le.mp hkey.2
      show (0 : Int) ≤ ((key.toNat - 48 : Nat) : Int) ∧ ((key.toNat - 48 : Nat) : Int) ≤ 9
      omega
    have hstart : ∃ c',
        (if !c.entering then { c with current := 0, entering := true } else c) = c' ∧
        (0 ≤ c'.current ∧ c'.current ≤ kLimit) ∧ WithinLimit c'.accumulator := by
      refine ⟨_, rfl, ?_⟩
      split
      · exact ⟨⟨Int.le_refl 0, withinLimit_zero.2⟩, h.accumulator⟩
      · rename_i hentering
        exact ⟨⟨(h.entering (by simpa using hentering)).1, h.current.2⟩, h.accumulator⟩
    obtain ⟨c', hc', hnumber, haccumulator'⟩ := hstart
    obtain ⟨hnext, hlow, hhigh⟩ := appendChecked_eq hnumber hdigit
    dsimp only
    rw [hc', hnext, Option.map_some]
    split
    · rename_i hroom
      rw [if_pos hroom] at hlow hhigh
      exact ⟨rfl, ⟨Int.le_trans withinLimit_zero.1 hlow, hhigh⟩, haccumulator',
        fun _ => ⟨hlow, rfl⟩⟩
    · exact ⟨rfl, ⟨Int.le_trans withinLimit_zero.1 hnumber.1, hnumber.2⟩, haccumulator',
        fun _ => ⟨hnumber.1, rfl⟩⟩
  · split
    · rw [quotient_eq h.current (by decide)]
      refine ⟨rfl, tdiv_withinLimit h.current 10, h.accumulator, fun hentering => ?_⟩
      obtain ⟨hlow, herror⟩ := h.entering hentering
      exact ⟨Int.tdiv_nonneg hlow (by decide), herror⟩
    · split
      · exact ⟨rfl, withinLimit_zero, withinLimit_zero, fun _ => ⟨Int.le_refl 0, rfl⟩⟩
      · rw [hcommit]
        cases operationOf key with
        | some operation => exact ⟨rfl, hcurrent, haccumulator, nofun⟩
        | none =>
          dsimp only
          split
          · exact ⟨rfl, hcurrent, haccumulator, nofun⟩
          · exact ⟨rfl, h⟩

theorem runChecked_eq (keys : List UInt64) (h : c.InRange) :
    c.runChecked keys = some (c.run keys) ∧ (c.run keys).InRange := by
  induction keys generalizing c with
  | nil => exact ⟨rfl, h⟩
  | cons key rest ih =>
    obtain ⟨hinput, hnext⟩ := inputChecked_eq h key
    obtain ⟨hrest, hrange⟩ := ih hnext
    refine ⟨?_, hrange⟩
    unfold runChecked at *
    rw [List.foldlM_cons, hinput]
    exact hrest

/-- The keys that apply the pending operator. -/
def Commits (key : UInt64) : Prop :=
  (operationOf key).isSome ∨ key = 0x3D ∨ key = 0x0A ∨ key = 0x0D

theorem input_commits {key : UInt64} (c : Calculator) (h : Commits key) :
    ∃ pending, c.input key =
      { c.commit with pending := pending, entering := false, dirty := true } := by
  rcases h with h | rfl | rfl | rfl
  · obtain ⟨operation, hkey⟩ := Option.isSome_iff_exists.mp h
    have heq : key = operation.key := by
      unfold operationOf at hkey
      split_ifs at hkey <;> (cases hkey; assumption)
    rw [heq, input_operation]
    exact ⟨_, rfl⟩
  · exact ⟨none, rfl⟩
  · exact ⟨none, rfl⟩
  · exact ⟨none, rfl⟩

/-- The operation that is due has no result within the limit. -/
def Fails (c : Calculator) : Prop :=
  ∃ operation, c.hasAccumulator = true ∧ c.pending = some operation ∧ c.entering = true ∧
    (operation = .divide ∧ c.current = 0 ∨ ¬ WithinLimit (operation.result c.accumulator c.current))

/-- Whatever keys are pressed, the numbers stay within nine digits, no operation overflows or
    divides by zero, and one without a result leaves an error and no number. -/
theorem calculator_range (keys : List UInt64) :
    (({} : Calculator).run keys).InRange ∧
    ({} : Calculator).runChecked keys = some (({} : Calculator).run keys) ∧
    ∀ key, Commits key → (({} : Calculator).run keys).Fails →
      (({} : Calculator).run (keys ++ [key])).error = true ∧
        (({} : Calculator).run (keys ++ [key])).current = 0 ∧
        (({} : Calculator).run (keys ++ [key])).accumulator = 0 := by
  have hstart : ({} : Calculator).InRange :=
    ⟨withinLimit_zero, withinLimit_zero, fun _ => ⟨Int.le_refl 0, rfl⟩⟩
  obtain ⟨hchecked, hrange⟩ := runChecked_eq keys hstart
  refine ⟨hrange, hchecked, ?_⟩
  rintro key hkey ⟨operation, hhas, hpending, hentering, hfails⟩
  rw [run_append]
  show (input _ key).error = true ∧ (input _ key).current = 0 ∧ (input _ key).accumulator = 0
  generalize ({} : Calculator).run keys = c at *
  obtain ⟨pending, hinput⟩ := input_commits c hkey
  have hnone : operation.apply c.accumulator c.current = none := by
    rcases hfails with hzero | hout
    · exact if_pos (Or.inl hzero)
    · unfold WithinLimit at hout
      exact if_pos (Or.inr (by omega))
  rw [hinput, commit_apply hhas hpending hentering (hrange.entering hentering).2, hnone]
  exact ⟨rfl, rfl, rfl⟩

end Calculator

open Calculator

/-- An expression typed at the start or after `=` or `C` shows its value exactly when no
    accumulator is held, or the one that is held leads to the same result. -/
theorem evaluates_iff (c : Calculator) (hc : Ready c) (first : Digits) (rest : Tail)
    (htyped : WellTyped first rest) (hrest : rest ≠ []) (v : Int)
    (hv : value (numeral first) rest = some v) :
    (c.run (expressionKeys first rest)).shown = some v ↔
      c.hasAccumulator = false ∨ rest.foldl carry (some c.accumulator) = some v := by
  rw [run_expression hc htyped hrest]
  cases hhas : c.hasAccumulator with
  | false => simp [foldl_carry_value hv]
  | true => simp

theorem evaluates_sum :
    ((({} : Calculator).run (expressionKeys [2] [(.add, [3])])).shown = some 5 ↔
      ({} : Calculator).hasAccumulator = false ∨
        [(Operation.add, ([3] : Digits))].foldl carry (some ({} : Calculator).accumulator) =
          some 5) ∧
      (({} : Calculator).run (expressionKeys [2] [(.add, [3])])).shown = some 5 := by
  have h := evaluates_iff {} .start [2] [(.add, [3])] (by unfold WellTyped; decide) (by simp) 5 rfl
  exact ⟨h, h.mpr (Or.inl rfl)⟩

/-- After `5=`, the expression `2+3=` shows 8. -/
theorem sum_after_equals :
    Ready (({} : Calculator).run ([0x35] ++ [equalsKey])) ∧
      value (numeral [2]) [(.add, [3])] = some 5 ∧
      ((({} : Calculator).run ([0x35] ++ [equalsKey])).run
        (expressionKeys [2] [(.add, [3])])).shown =
        some 8 :=
  ⟨.after [0x35] equalsKey (Or.inl rfl), rfl, rfl⟩

end ArgusOs.Apps
