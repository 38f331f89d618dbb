/-
  The snake: `user/snake.cpp`.

  `SnakeGame` is the class without its drawing. The arrays `body_x_` and `body_y_` are read and
  written together and are one array of cells here; `missed` is not in the source, it records
  that `place_food` gave up once. A game is driven by `input`, which takes a key, and by `step`,
  which moves the snake.

  Two results: what the keys that come between two steps do to the direction (`steering_iff`),
  and what holds of the board after any sequence of calls (`board_invariant`).
-/
import Mathlib.Data.List.Induction

namespace ArgusOs.Apps

def argusSnakeGridWidth : UInt32 := 20
def argusSnakeGridHeight : UInt32 := 14
def argusSnakeCellCount : UInt32 := argusSnakeGridWidth * argusSnakeGridHeight
def argusSnakeMaxLength : Nat := 96

inductive PlayState
  | playing
  | gameOver
  deriving DecidableEq

inductive Direction
  | up
  | right
  | down
  | left
  deriving DecidableEq

/-- `kUp`, `kRight`, `kDown` and `kLeft`. -/
def Direction.code : Direction → UInt32
  | .up => 0
  | .right => 1
  | .down => 2
  | .left => 3

def opposite (first second : Direction) : Bool := (first.code + 2) &&& 3 = second.code

structure Cell where
  x : UInt8
  y : UInt8
  deriving DecidableEq

def Cell.position (cell : Cell) : Int × Int := (cell.x.toNat, cell.y.toNat)

/-- `next_x` and `next_y`. -/
def Direction.ahead (direction : Direction) (cell : Cell) : Int × Int :=
  match direction with
  | .up => (cell.position.1, cell.position.2 - 1)
  | .down => (cell.position.1, cell.position.2 + 1)
  | .left => (cell.position.1 - 1, cell.position.2)
  | .right => (cell.position.1 + 1, cell.position.2)

structure SnakeGame where
  body : Nat → Cell := fun _ => ⟨0, 0⟩
  randomState : UInt32
  state : PlayState := .playing
  score : UInt32 := 0
  length : Nat := 0
  direction : Direction := .right
  pendingDirection : Direction := .right
  food : Cell := ⟨0, 0⟩
  dirty : Bool := false
  missed : Bool := false

namespace SnakeGame

def random (state : UInt32) : UInt32 :=
  let state := state ^^^ (state <<< 13)
  let state := state ^^^ (state >>> 17)
  state ^^^ (state <<< 5)

def occupied (g : SnakeGame) (cell : Cell) (count : Nat) : Bool :=
  (List.range count).any fun index => g.body index = cell

/-- The loop of `place_food`, with the attempts that are left. -/
def tryFood (g : SnakeGame) : Nat → SnakeGame
  | 0 => { g with food := ⟨0, 0⟩, missed := true }
  | attempts + 1 =>
    let g := { g with randomState := random g.randomState }
    let position := g.randomState % argusSnakeCellCount
    let cell : Cell :=
      ⟨(position % argusSnakeGridWidth).toUInt8, (position / argusSnakeGridWidth).toUInt8⟩
    if !g.occupied cell g.length then { g with food := cell } else tryFood g attempts

variable (g : SnakeGame)

def placeFood : SnakeGame := g.tryFood argusSnakeCellCount.toNat

/-- The first four cells to the left of the centre. -/
def centred (body : Nat → Cell) (index : Nat) : Cell :=
  if index < 4 then
    ⟨(argusSnakeGridWidth / 2 - UInt32.ofNat index).toUInt8, (argusSnakeGridHeight / 2).toUInt8⟩
  else body index

def reset : SnakeGame :=
  let g := { g with
    state := .playing
    score := 0
    length := 4
    direction := .right
    pendingDirection := .right
    body := centred g.body }
  { g.placeFood with dirty := true }

/-- The constructor. -/
def start (seed : UInt32) : SnakeGame :=
  reset { randomState := if seed ≠ 0 then seed else 1 }

/-- The direction a key asks for. -/
def steering (key : UInt64) : Option Direction :=
  if key = 0x77 ∨ key = 0x57 ∨ key = 0x80 then some .up
  else if key = 0x73 ∨ key = 0x53 ∨ key = 0x81 then some .down
  else if key = 0x61 ∨ key = 0x41 ∨ key = 0x82 then some .left
  else if key = 0x64 ∨ key = 0x44 ∨ key = 0x83 then some .right
  else none

def resetKey (key : UInt64) : Bool := key = 0x72 ∨ key = 0x52

def input (key : UInt64) : SnakeGame :=
  if resetKey key then g.reset
  else
    let next := (steering key).getD g.direction
    if !opposite g.direction next then { g with pendingDirection := next } else g

/-- The loop that moves the cells, from the last one down. -/
def shiftBody (length : Nat) : Nat → (Nat → Cell) → Nat → Cell
  | 0, body => body
  | index + 1, body =>
    let source := if index ≥ length then length - 1 else index
    shiftBody length index (Function.update body (index + 1) (body source))

/-- The cell of a position inside the grid. -/
def cellAt (position : Int × Int) : Cell :=
  ⟨UInt8.ofNat position.1.toNat, UInt8.ofNat position.2.toNat⟩

/-- The move of the head to a cell. -/
def advance (cell : Cell) : SnakeGame :=
  let ate : Bool := cell = g.food
  let newLength := if ate ∧ g.length < argusSnakeMaxLength then g.length + 1 else g.length
  let body := shiftBody g.length (newLength - 1) g.body
  let g := { g with body := Function.update body 0 cell, length := newLength }
  let g := if ate then { g with score := g.score + 1 }.placeFood else g
  { g with dirty := true }

def step : SnakeGame :=
  if g.state ≠ .playing then g
  else
    let g := { g with direction := g.pendingDirection }
    let next := g.direction.ahead (g.body 0)
    if next.1 < 0 ∨ next.2 < 0 ∨ next.1 ≥ (argusSnakeGridWidth.toNat : Int) ∨
        next.2 ≥ (argusSnakeGridHeight.toNat : Int) ∨ g.occupied (cellAt next) (g.length - 1) then
      { g with state := .gameOver, dirty := true }
    else g.advance (cellAt next)

/-- A call from the loop of `argus_user_start`. -/
inductive Call
  | input (key : UInt64)
  | step

def call : Call → SnakeGame
  | .input key => g.input key
  | .step => g.step

def run (calls : List Call) : SnakeGame := calls.foldl call g

variable {g : SnakeGame} {key : UInt64} {cell : Cell} {body body' : Nat → Cell}
  {length length' : Nat}

/-! ## What the functions do -/

/-- A cell of the grid. -/
def Inside (cell : Cell) : Prop := cell.x.toNat < 20 ∧ cell.y.toNat < 14

theorem occupied_eq_false {count : Nat} :
    g.occupied cell count = false ↔ ∀ i < count, g.body i ≠ cell := by
  simp [occupied]

/-- None of the three steps of the generator takes a number to zero: the shifts have no fixed
    point but zero. -/
theorem random_ne_zero {state : UInt32} (h : state ≠ 0) : random state ≠ 0 := by
  have hleft (s : UInt32) (k : UInt32) (hk : k = 13 ∨ k = 5) (hs : s ≠ 0) :
    s ^^^ (s <<< k) ≠ 0 := by
    intro hc
    apply hs
    have heq := congrArg UInt32.toNat (UInt32.xor_eq_zero_iff.mp hc)
    apply UInt32.toNat_inj.mp
    rcases hk with rfl | rfl
    · simp [Nat.shiftLeft_eq] at heq ⊢
      omega
    · simp [Nat.shiftLeft_eq] at heq ⊢
      omega
  have hright (s : UInt32) (hs : s ≠ 0) : s ^^^ (s >>> 17) ≠ 0 := by
    intro hc
    apply hs
    have heq := congrArg UInt32.toNat (UInt32.xor_eq_zero_iff.mp hc)
    apply UInt32.toNat_inj.mp
    simp [Nat.shiftRight_eq_div_pow] at heq ⊢
    omega
  exact hleft _ 5 (Or.inr rfl) (hright _ (hleft _ 13 (Or.inl rfl) h))

theorem candidate_inside (position : UInt32) :
    Inside ⟨(position % argusSnakeCellCount % argusSnakeGridWidth).toUInt8,
      (position % argusSnakeCellCount / argusSnakeGridWidth).toUInt8⟩ := by
  show position.toNat % 280 % 20 % 2 ^ 8 < 20 ∧ position.toNat % 280 / 20 % 2 ^ 8 < 14
  omega

/-- `place_food` changes the generator and the food; the food is on a free cell unless it gave
    up. -/
theorem placeFood_cases (g : SnakeGame) :
    ∃ r f m, g.placeFood = { g with randomState := r, food := f, missed := m } ∧
      (g.randomState ≠ 0 → r ≠ 0) ∧
      (m = false → g.missed = false ∧ Inside f ∧ ∀ i < g.length, g.body i ≠ f) := by
  unfold placeFood
  generalize argusSnakeCellCount.toNat = attempts
  induction attempts generalizing g with
  | zero => exact ⟨g.randomState, ⟨0, 0⟩, true, rfl, id, nofun⟩
  | succ attempts ih =>
    unfold tryFood
    dsimp only
    split
    · rename_i hfree
      rw [Bool.not_eq_true', occupied_eq_false] at hfree
      exact ⟨_, _, g.missed, rfl, random_ne_zero, fun hm => ⟨hm, candidate_inside _, hfree⟩⟩
    · obtain ⟨r, f, m, heq, hr, hm⟩ := ih { g with randomState := random g.randomState }
      exact ⟨r, f, m, heq, fun h => hr (random_ne_zero h), hm⟩

theorem reset_cases (g : SnakeGame) :
    ∃ r f m, g.reset = { g with
        state := .playing, score := 0, length := 4, direction := .right, pendingDirection := .right,
        body := centred g.body, randomState := r, food := f, missed := m, dirty := true } ∧
      (g.randomState ≠ 0 → r ≠ 0) ∧
      (m = false → g.missed = false ∧ Inside f ∧ ∀ i < 4, centred g.body i ≠ f) := by
  obtain ⟨r, f, m, heq, hplaced⟩ := placeFood_cases { g with
    state := .playing, score := 0, length := 4, direction := .right, pendingDirection := .right,
    body := centred g.body }
  refine ⟨r, f, m, ?_, hplaced⟩
  unfold reset
  dsimp only
  rw [heq]

theorem shiftBody_eq {n : Nat} (hn : n ≤ length) (i : Nat) :
    shiftBody length n body i = if 0 < i ∧ i ≤ n then body (i - 1) else body i := by
  induction n generalizing body with
  | zero =>
    rw [if_neg (by omega)]
    rfl
  | succ n ih =>
    unfold shiftBody
    rw [if_neg (by omega), ih (by omega)]
    by_cases hi : i = n + 1
    · subst hi
      rw [if_neg (by omega), if_pos (by omega), Function.update_self, Nat.add_sub_cancel]
    · by_cases hin : 0 < i ∧ i ≤ n
      · rw [if_pos hin, if_pos (by omega), Function.update_of_ne (by omega)]
      · rw [if_neg hin, if_neg (by omega), Function.update_of_ne hi]

/-- A move of the head to a cell, which leaves a body of `length'` cells. -/
structure Moves (g : SnakeGame) (cell : Cell) (body' : Nat → Cell) (length' : Nat) : Prop where
  inside : Inside cell
  ahead : cell.position = g.pendingDirection.ahead (g.body 0)
  free : ∀ i < g.length - 1, g.body i ≠ cell
  head : body' 0 = cell
  rest : ∀ i, i + 1 < length' → body' (i + 1) = g.body i

/-- A step: no game is going on, the game ends, the head moves to a cell without food, or it
    moves to the food. -/
inductive Stepped (g : SnakeGame) : SnakeGame → Prop
  | idle (h : g.state ≠ .playing) : Stepped g g
  | ends (h : g.state = .playing) :
      Stepped g { g with direction := g.pendingDirection, state := .gameOver, dirty := true }
  | moves {cell : Cell} {body' : Nat → Cell} (h : g.state = .playing)
      (hmoves : Moves g cell body' g.length) (hfood : cell ≠ g.food) :
      Stepped g { g with direction := g.pendingDirection, body := body', dirty := true }
  | eats {body' : Nat → Cell} {length' : Nat} {r : UInt32} {f : Cell} {m : Bool}
      (h : g.state = .playing) (hmoves : Moves g g.food body' length')
      (hlen : length' = if g.length < 96 then g.length + 1 else g.length)
      (hr : g.randomState ≠ 0 → r ≠ 0)
      (hm : m = false → g.missed = false ∧ Inside f ∧ ∀ i < length', body' i ≠ f) :
      Stepped g { g with
        direction := g.pendingDirection, body := body', length := length', score := g.score + 1,
        randomState := r, food := f, missed := m, dirty := true }

/-- The cell ahead, if it is inside the grid. -/
theorem cellAt_position {position : Int × Int} (hx : 0 ≤ position.1 ∧ position.1 < 20)
    (hy : 0 ≤ position.2 ∧ position.2 < 14) :
    (cellAt position).position = position ∧ Inside (cellAt position) := by
  have hx' : (cellAt position).x.toNat = position.1.toNat :=
    UInt8.toNat_ofNat_of_lt' (by show position.1.toNat < 256; omega)
  have hy' : (cellAt position).y.toNat = position.2.toNat :=
    UInt8.toNat_ofNat_of_lt' (by show position.2.toNat < 256; omega)
  unfold Cell.position Inside
  rw [hx', hy']
  refine ⟨Prod.ext ?_ ?_, ?_, ?_⟩
  · exact Int.toNat_of_nonneg hx.1
  · exact Int.toNat_of_nonneg hy.1
  · omega
  · omega

theorem step_stepped (g : SnakeGame) : Stepped g g.step := by
  unfold step
  by_cases hplaying : g.state = .playing
  · rw [if_neg (not_not_intro hplaying)]
    dsimp only
    split
    · exact .ends hplaying
    · rename_i hinside
      simp only [not_or, Int.not_lt, ge_iff_le, Int.not_le, Bool.not_eq_true] at hinside
      obtain ⟨hx, hy, hx', hy', hfree⟩ := hinside
      obtain ⟨hcell, hin⟩ := cellAt_position ⟨hx, hx'⟩ ⟨hy, hy'⟩
      generalize cellAt _ = cell at hcell hin hfree ⊢
      rw [occupied_eq_false] at hfree
      have hmoves (length' : Nat) (hle : length' ≤ g.length + 1) :
          Moves g cell (Function.update (shiftBody g.length (length' - 1) g.body) 0
            cell) length' := by
        refine ⟨hin, hcell, hfree, Function.update_self .., fun i hi => ?_⟩
        rw [Function.update_of_ne (Nat.succ_ne_zero i), shiftBody_eq (by omega), if_pos (by omega)]
        rfl
      unfold advance
      by_cases hate : cell = g.food
      · subst hate
        simp only [decide_true, if_true, true_and]
        obtain ⟨r, f, m, heq, hr, hm⟩ := placeFood_cases { g with
          direction := g.pendingDirection
          body := Function.update (shiftBody g.length
            ((if g.length < argusSnakeMaxLength then g.length + 1 else g.length) - 1)
              g.body) 0 g.food
          length := if g.length < argusSnakeMaxLength then g.length + 1 else g.length
          score := g.score + 1 }
        rw [heq]
        exact .eats hplaying (hmoves _ (by split <;> omega)) rfl hr hm
      · simp only [hate, decide_false, Bool.false_eq_true, if_false, false_and]
        exact .moves hplaying (hmoves _ (Nat.le_succ _)) hate
  · rw [if_pos hplaying]
    exact .idle hplaying

/-! ## Steering -/

/-- The games right after a reset, or after a step that leaves the game going on. -/
inductive Fresh : SnakeGame → Prop
  | started (seed : UInt32) : Fresh (start seed)
  | again (seed : UInt32) (calls : List Call) (key : UInt64) (h : resetKey key = true) :
      Fresh (((start seed).run calls).input key)
  | stepped (seed : UInt32) (calls : List Call)
      (h : ((start seed).run calls).step.state = .playing) : Fresh ((start seed).run calls).step

theorem reset_fresh (g : SnakeGame) :
    g.reset.state = .playing ∧ g.reset.pendingDirection = g.reset.direction := by
  obtain ⟨r, f, m, heq, -⟩ := reset_cases g
  rw [heq]
  exact ⟨rfl, rfl⟩

theorem fresh_state (h : Fresh g) : g.state = .playing ∧ g.pendingDirection = g.direction := by
  cases h with
  | started seed => exact reset_fresh _
  | again seed calls key hkey =>
    unfold input
    rw [if_pos hkey]
    exact reset_fresh _
  | stepped seed calls hplaying =>
    refine ⟨hplaying, ?_⟩
    have hstep := step_stepped ((start seed).run calls)
    generalize ((start seed).run calls).step = g' at hstep hplaying ⊢
    cases hstep with
    | idle h => exact absurd hplaying h
    | ends => cases hplaying
    | moves | eats => rfl

theorem step_direction (h : g.state = .playing) : g.step.direction = g.pendingDirection := by
  have hstep := step_stepped g
  generalize g.step = g' at hstep ⊢
  cases hstep with
  | idle hidle => exact absurd h hidle
  | ends | moves | eats => rfl

/-- What the keys between two steps should lead to: the last direction asked for that is not
    opposite to the current one. -/
def steered (current : Direction) (keys : List UInt64) : Direction :=
  ((keys.filterMap steering).filter fun d => !opposite current d).getLast?.getD current

/-- The direction that a key leaves pending. -/
def pend (current pending : Direction) (key : UInt64) : Direction :=
  match steering key with
  | some d => if opposite current d then pending else d
  | none => current

theorem input_eq (hkey : resetKey key = false) :
    g.input key = { g with pendingDirection := pend g.direction g.pendingDirection key } := by
  unfold input pend
  rw [hkey, if_neg Bool.false_ne_true]
  cases steering key with
  | none =>
    have hsame : opposite g.direction g.direction = false := by cases g.direction <;> rfl
    simp [hsame]
  | some d => cases h : opposite g.direction d <;> simp [h]

variable {keys : List UInt64}

theorem inputs_eq (hkeys : ∀ key ∈ keys, resetKey key = false) :
    keys.foldl input g =
      { g with pendingDirection := keys.foldl (pend g.direction) g.pendingDirection } := by
  induction keys generalizing g with
  | nil => rfl
  | cons key rest ih =>
    rw [List.forall_mem_cons] at hkeys
    rw [List.foldl_cons, input_eq hkeys.1, ih hkeys.2]
    rfl

/-- The two readings of a key differ for those that do not steer. -/
theorem steered_snoc (current : Direction) (keys : List UInt64) (key : UInt64) :
    steered current (keys ++ [key]) =
      if steering key = none then steered current keys
      else pend current (steered current keys) key := by
  unfold steered pend
  cases hkey : steering key with
  | none => simp [hkey]
  | some d => cases hd : opposite current d <;> simp [hkey, hd]

/-- The keys before one that does not steer ask for no other direction. -/
def Undisturbed (current : Direction) (keys : List UInt64) : Prop :=
  ∀ before key after, keys = before ++ key :: after → steering key = none →
    steered current before = current

theorem Undisturbed.left {current : Direction} {more : List UInt64}
    (h : Undisturbed current (keys ++ more)) : Undisturbed current keys := by
  rintro before key after rfl
  exact h before key (after ++ more) (by simp)

theorem Undisturbed.pending {current : Direction} (h : Undisturbed current keys) :
    keys.foldl (pend current) current = steered current keys := by
  induction keys using List.reverseRecOn with
  | nil => rfl
  | append_singleton keys key ih =>
    rw [List.foldl_append, ih h.left, steered_snoc]
    by_cases hkey : steering key = none
    · rw [if_pos hkey, h keys key [] rfl hkey]
      simp [pend, hkey]
    · rw [if_neg hkey]
      rfl

/-- The next step goes where the last steering key that counts says, and the other keys leave
    the game as it is. -/
structure Steers (g : SnakeGame) (keys : List UInt64) : Prop where
  direction : (keys.foldl input g).step.direction = steered g.direction keys
  neutral : ∀ before key after, keys = before ++ key :: after → steering key = none →
    (before.foldl input g).input key = before.foldl input g

theorem steers_of_undisturbed (hg : g.state = .playing)
    (hpending : g.pendingDirection = g.direction) (hkeys : ∀ key ∈ keys, resetKey key = false)
    (h : Undisturbed g.direction keys) : Steers g keys where
  direction := by
    rw [inputs_eq hkeys, hpending]
    exact (step_direction (by exact hg)).trans h.pending
  neutral := by
    rintro before key after rfl hkey
    rw [List.forall_mem_append, List.forall_mem_cons] at hkeys
    rw [input_eq hkeys.2.1, inputs_eq hkeys.1, hpending, h.left.pending,
      h before key after rfl hkey]
    simp [pend, hkey]

theorem undisturbed_of_steers (hpending : g.pendingDirection = g.direction)
    (hkeys : ∀ key ∈ keys, resetKey key = false) (h : Steers g keys) :
    Undisturbed g.direction keys := by
  -- by induction on how many keys are looked at: those before a key are undisturbed already
  suffices hall : ∀ n before key after, before.length = n → keys = before ++ key :: after →
      steering key = none → steered g.direction before = g.direction from
    fun before key after => hall before.length before key after rfl
  intro n
  induction n using Nat.strongRecOn with
  | ind n ih =>
    rintro before key after rfl rfl hkey
    have hbefore : Undisturbed g.direction before := by
      rintro first k more rfl hk
      exact ih first.length (by simp) first k (more ++ key :: after) rfl (by simp) hk
    have hneutral := h.neutral before key after rfl hkey
    rw [List.forall_mem_append, List.forall_mem_cons] at hkeys
    rw [input_eq hkeys.2.1, inputs_eq hkeys.1, hpending, hbefore.pending] at hneutral
    have := congrArg SnakeGame.pendingDirection hneutral
    simpa [pend, hkey] using this.symm

/-- From a fresh game the keys steer as they should exactly when no key that does not steer
    comes after one that asked for another direction: such a key makes the current direction
    pending again. -/
theorem steering_iff (g : SnakeGame) (hg : Fresh g) (keys : List UInt64)
    (hkeys : ∀ key ∈ keys, resetKey key = false) :
    Steers g keys ↔ Undisturbed g.direction keys := by
  obtain ⟨hplaying, hpending⟩ := fresh_state hg
  constructor
  · exact undisturbed_of_steers hpending hkeys
  · exact steers_of_undisturbed hplaying hpending hkeys

/-- X, W and A: X comes before any steering key, A is opposite, and the snake goes up. -/
theorem steering_up :
    Steers (start 1) [0x78, 0x77, 0x61] ∧
      (([0x78, 0x77, 0x61] : List UInt64).foldl input (start 1)).step.direction = .up := by
  have hsteers : Steers (start 1) [0x78, 0x77, 0x61] := by
    refine (steering_iff (start 1) (.started 1) _ (by simp [resetKey])).mpr ?_
    rintro before key after heq hkey
    cases before with
    | nil => rfl
    | cons k rest =>
      injection heq with _ heq
      have hmem : key = 0x77 ∨ key = 0x61 := by
        simpa using (show key ∈ [0x77, 0x61] by simp [heq])
      rcases hmem with rfl | rfl <;> cases hkey
  exact ⟨hsteers, hsteers.direction.trans (by decide)⟩

/-- W and then X: the snake goes on to the right. -/
theorem steering_lost :
    Fresh (start 1) ∧ (([0x77, 0x78] : List UInt64).foldl input (start 1)).step.direction = .right ∧
      steered (start 1).direction [0x77, 0x78] = .up := by
  refine ⟨.started 1, ?_, ?_⟩
  · decide
  · decide

/-! ## The board -/

def Adjacent (a b : Cell) : Prop :=
  a.x = b.x ∧ (a.y.toNat + 1 = b.y.toNat ∨ b.y.toNat + 1 = a.y.toNat) ∨
    a.y = b.y ∧ (a.x.toNat + 1 = b.x.toNat ∨ b.x.toNat + 1 = a.x.toNat)

/-- The first cells of an array make a body. -/
structure Body (body : Nat → Cell) (length : Nat) : Prop where
  inside : ∀ i < length, Inside (body i)
  distinct : ∀ i < length, ∀ j < length, body i = body j → i = j
  adjacent : ∀ i, i + 1 < length → Adjacent (body i) (body (i + 1))

structure Board (g : SnakeGame) : Prop where
  length : 4 ≤ g.length ∧ g.length ≤ argusSnakeMaxLength
  body : Body g.body g.length
  foodInside : Inside g.food
  foodFree : ∀ i < g.length, g.body i ≠ g.food
  pending : opposite g.direction g.pendingDirection = false
  neck : g.state = .playing → g.direction.ahead (g.body 1) = (g.body 0).position
  random : g.randomState ≠ 0

theorem adjacent_of_ahead {direction : Direction} {a b : Cell}
    (h : a.position = direction.ahead b) : Adjacent a b := by
  unfold Adjacent
  rw [← UInt8.toNat_inj, ← UInt8.toNat_inj (a := a.y)]
  cases direction
  all_goals
    simp only [Cell.position, Direction.ahead, Prod.mk.injEq] at h
    omega

/-- The head never turns back onto the cell behind it. -/
theorem ahead_ne_neck {direction pending : Direction} {a b : Cell}
    (hneck : direction.ahead b = a.position) (hpending : opposite direction pending = false) :
    pending.ahead a ≠ b.position := by
  intro hback
  revert hpending
  cases direction
  all_goals
    cases pending
    all_goals
      simp only [Cell.position, Direction.ahead, Prod.mk.injEq] at hneck hback
      first | omega | decide

/-- A body stays one when the head moves to a cell that is not among those that remain. -/
theorem Body.push (h : Body g.body g.length) (hlen : length' ≤ g.length + 1)
    (hmoves : Moves g cell body' length') (hfree : ∀ i, i + 1 < length' → g.body i ≠ cell) :
    Body body' length' where
  inside i hi := by
    cases i with
    | zero => exact hmoves.head ▸ hmoves.inside
    | succ i =>
      rw [hmoves.rest i hi]
      exact h.inside i (by omega)
  distinct i hi j hj heq := by
    cases i with
    | zero =>
      cases j with
      | zero => rfl
      | succ j =>
        rw [hmoves.head, hmoves.rest j hj] at heq
        exact absurd heq.symm (hfree j hj)
    | succ i =>
      cases j with
      | zero =>
        rw [hmoves.head, hmoves.rest i hi] at heq
        exact absurd heq (hfree i hi)
      | succ j =>
        rw [hmoves.rest i hi, hmoves.rest j hj] at heq
        rw [h.distinct i (by omega) j (by omega) heq]
  adjacent i hi := by
    cases i with
    | zero =>
      rw [hmoves.head, hmoves.rest 0 hi]
      exact adjacent_of_ahead hmoves.ahead
    | succ i =>
      rw [hmoves.rest i (by omega), hmoves.rest (i + 1) hi]
      exact h.adjacent i (by omega)

/-- The old head is the neck of the new one. -/
theorem Moves.neck (hmoves : Moves g cell body' length') (hlen : 1 < length') :
    g.pendingDirection.ahead (body' 1) = (body' 0).position := by
  rw [hmoves.head, hmoves.rest 0 hlen, hmoves.ahead]

theorem opposite_self (direction : Direction) : opposite direction direction = false := by
  cases direction <;> rfl

theorem centred_body (body : Nat → Cell) : Body (centred body) 4 where
  inside i hi := by
    unfold Inside centred
    rw [if_pos hi]
    revert i
    decide
  distinct i hi j hj := by
    unfold centred
    rw [if_pos hi, if_pos hj]
    revert i j
    decide
  adjacent i hi := by
    unfold Adjacent centred
    rw [if_pos (by omega), if_pos hi]
    have hi' : i < 3 := by omega
    clear hi
    revert i
    decide

theorem reset_board (h : g.randomState ≠ 0) (hmissed : g.reset.missed = false) :
    g.missed = false ∧ Board g.reset := by
  obtain ⟨r, f, m, heq, hr, hm⟩ := reset_cases g
  rw [heq] at hmissed ⊢
  obtain ⟨hold, hin, hfree⟩ := hm hmissed
  exact ⟨hold, ⟨Nat.le_refl 4, show 4 ≤ 96 by decide⟩, centred_body g.body, hin, hfree,
    opposite_self _, fun _ => rfl, hr h⟩

theorem input_board (key : UInt64) (h : Board g) (hmissed : (g.input key).missed = false) :
    Board (g.input key) := by
  cases hkey : resetKey key with
  | true =>
    have hreset : g.input key = g.reset := if_pos hkey
    rw [hreset] at hmissed ⊢
    exact (reset_board h.random hmissed).2
  | false =>
    rw [input_eq hkey]
    have hpend : opposite g.direction (pend g.direction g.pendingDirection key) = false := by
      unfold pend
      cases steering key with
      | none => exact opposite_self g.direction
      | some d =>
        dsimp only
        split
        · exact h.pending
        · rename_i hd
          exact Bool.not_eq_true _ ▸ hd
    exact { h with pending := hpend }

theorem step_board (h : Board g) (hmissed : g.step.missed = false) : Board g.step := by
  have hstep := step_stepped g
  generalize g.step = g' at hstep hmissed ⊢
  obtain ⟨hlow, hhigh⟩ := h.length
  cases hstep with
  | idle => exact h
  | ends => exact { h with pending := opposite_self _, neck := nofun }
  | @moves cell body' _ hmoves hfood =>
    -- the tail is not tested: it moves away
    have hbody := h.body.push (by omega) hmoves fun i hi => hmoves.free i (by omega)
    refine ⟨h.length, hbody, h.foodInside, ?_, opposite_self _, ?_, h.random⟩
    · intro i hi
      show body' i ≠ g.food
      cases i with
      | zero => exact hmoves.head ▸ hfood
      | succ i =>
        rw [hmoves.rest i hi]
        exact h.foodFree i (Nat.lt_of_succ_lt hi)
    · exact fun _ => hmoves.neck (by omega)
  | @eats body' length' _ _ _ _ hmoves hlen hr hm =>
    -- the tail stays if there is room, but the food is on no cell of the body
    obtain ⟨-, hin, hfree⟩ := hm hmissed
    have hle : length' ≤ g.length + 1 ∧ g.length ≤ length' ∧ length' ≤ argusSnakeMaxLength := by
      unfold argusSnakeMaxLength at *
      split at hlen <;> omega
    have hbody := h.body.push hle.1 hmoves fun i hi => h.foodFree i (by omega)
    exact ⟨⟨Nat.le_trans hlow hle.2.1, hle.2.2⟩, hbody, hin, hfree, opposite_self _,
      fun _ => hmoves.neck (by omega), hr h.random⟩

/-- A call of which `place_food` found a free cell whenever it was made. -/
theorem call_missed (c : Call) (h : (g.call c).missed = false) : g.missed = false := by
  cases c with
  | input key =>
    cases hkey : resetKey key with
    | true =>
      have hreset : g.call (.input key) = g.reset := if_pos hkey
      obtain ⟨r, f, m, heq, -, hm⟩ := reset_cases g
      rw [hreset, heq] at h
      exact (hm h).1
    | false =>
      have hinput : g.call (.input key) = _ := input_eq hkey
      rw [hinput] at h
      exact h
  | step =>
    have hstep := step_stepped g
    replace h : g.step.missed = false := h
    generalize g.step = g' at hstep h
    cases hstep with
    | idle | ends | moves => exact h
    | eats _ _ _ _ hm => exact (hm h).1

theorem run_board (calls : List Call) (hg : g.missed = false → Board g)
    (hmissed : (g.run calls).missed = false) : Board (g.run calls) := by
  induction calls generalizing g with
  | nil => exact hg hmissed
  | cons c rest ih =>
    refine ih (fun hc => ?_) hmissed
    have hboard := hg (call_missed c hc)
    cases c with
    | input key => exact input_board key hboard hc
    | step => exact step_board hboard hc

/-- The board after any calls of which every `place_food` found a free cell. -/
theorem board_invariant (seed : UInt32) (calls : List Call)
    (hfound : ((start seed).run calls).missed = false) :
    Board ((start seed).run calls) ∧
      (((start seed).run calls).state = .playing →
        ((start seed).run calls).pendingDirection.ahead (((start seed).run calls).body 0) ≠
          (((start seed).run calls).body 1).position) := by
  have hseed : (if seed ≠ 0 then seed else 1) ≠ 0 := by
    split
    · assumption
    · decide
  have hboard := run_board calls (g := start seed) (fun h => (reset_board hseed h).2) hfound
  exact ⟨hboard, fun hplaying => ahead_ne_neck (hboard.neck hplaying) hboard.pending⟩

theorem board_after_turn :
    ((start 7).run [.step, .input 0x77, .step]).missed = false ∧
      Board ((start 7).run [.step, .input 0x77, .step]) :=
  ⟨by decide +kernel, (board_invariant 7 [.step, .input 0x77, .step] (by decide +kernel)).1⟩

end SnakeGame

end ArgusOs.Apps
