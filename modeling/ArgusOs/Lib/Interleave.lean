/-
  Code that can be interrupted. A program is a tree of atomic actions on a shared state; an
  interrupt handler is a function on that state that runs to completion between two actions.

  `Code.run` is the run without interrupts, `Code.runWith` the run in which a schedule says how
  often the handler runs before each action. Code for a part of the state becomes code for the
  whole by `Code.zoom`.
-/
import Mathlib.Logic.Function.Iterate

namespace ArgusOs.Lib

variable {σ τ α β : Type}

/-- A program over the shared state `σ`: it is done, or it makes an atomic change and goes on
    with what it saw before the change. -/
inductive Code (σ : Type) (α : Type) : Type where
  | ret (value : α) : Code σ α
  | act (effect : σ → σ) (next : σ → Code σ α) : Code σ α

namespace Code

def bind : Code σ α → (α → Code σ β) → Code σ β
  | ret value, k => k value
  | act effect next, k => act effect fun s => bind (next s) k

instance : Monad (Code σ) where
  pure := ret
  bind := bind

variable (effect : σ → σ) (value : σ → α)

/-- One action that yields a value of the state it acts on. -/
def atomic : Code σ α := act effect fun s => ret (value s)

def load : Code σ α := atomic id value

def store : Code σ Unit := atomic effect fun _ => ()

/-! ## Without interrupts -/

def run : Code σ α → σ → σ × α
  | ret value, s => (s, value)
  | act effect next, s => run (next s) (effect s)

@[simp] theorem run_pure (value : α) (s : σ) : run (pure value : Code σ α) s = (s, value) := rfl

@[simp] theorem run_atomic (s : σ) : run (atomic effect value) s = (effect s, value s) := rfl

@[simp] theorem run_load (s : σ) : run (load value) s = (s, value s) := rfl

@[simp] theorem run_store (s : σ) : run (store effect) s = (effect s, ()) := rfl

@[simp] theorem run_bind (c : Code σ α) (k : α → Code σ β) (s : σ) :
    run (c >>= k) s = run (k (run c s).2) (run c s).1 := by
  show run (bind c k) s = _
  induction c generalizing s with
  | ret value => rfl
  | act effect next ih => exact ih s (effect s)

/-! ## A part of the state -/

/-- Code for a part of the state, run on the whole. -/
def zoom (get : σ → τ) (put : τ → σ → σ) : Code τ α → Code σ α
  | ret value => ret value
  | act effect next =>
    act (fun s => put (effect (get s)) s) fun s => zoom get put (next (get s))

/-- What a part and its update have to satisfy. -/
structure Lens (get : σ → τ) (put : τ → σ → σ) : Prop where
  get_put : ∀ t s, get (put t s) = t
  put_get : ∀ s, put (get s) s = s
  put_put : ∀ t t' s, put t' (put t s) = put t' s

theorem run_zoom {get : σ → τ} {put : τ → σ → σ} (h : Lens get put) (c : Code τ α) (s : σ) :
    run (zoom get put c) s = (put (run c (get s)).1 s, (run c (get s)).2) := by
  induction c generalizing s with
  | ret value =>
    show (s, value) = (put (get s) s, value)
    rw [h.put_get]
  | act effect next ih =>
    show run (zoom get put (next (get s))) (put (effect (get s)) s) = _
    rw [ih, h.get_put, h.put_put]
    rfl

/-! ## With interrupts -/

/-- The run in which the handler runs, before each action, as often as the schedule says; the
    rest of the schedule is handed on. -/
def runWith (irq : σ → σ) : Code σ α → List Nat → σ → σ × α
  | ret value, _, s => (s, value)
  | act effect next, schedule, s =>
    let s' := irq^[schedule.headD 0] s
    runWith irq (next s') schedule.tail (effect s')

theorem runWith_nil (irq : σ → σ) (c : Code σ α) (s : σ) : runWith irq c [] s = run c s := by
  induction c generalizing s with
  | ret value => rfl
  | act effect next ih => exact ih s (effect s)

/-- One action of a run with interrupts. -/
theorem runWith_atomic_bind (irq : σ → σ) (effect : σ → σ) (value : σ → α) (k : α → Code σ β)
    (schedule : List Nat) (s : σ) :
    runWith irq (atomic effect value >>= k) schedule s =
      runWith irq (k (value (irq^[schedule.headD 0] s))) schedule.tail
        (effect (irq^[schedule.headD 0] s)) := rfl

end Code

end ArgusOs.Lib
