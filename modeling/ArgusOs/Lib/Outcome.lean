/-
  Computations that may stop: what holds of the result when there is one.

  `Ensures x post` is partial correctness for `Except`. It composes along `bind`, so a chain
  of calls is verified call by call. `foldlM_invariant` is the rule for a loop that may give up.
-/
import Mathlib.Logic.Relation

namespace ArgusOs.Lib

variable {ε α β : Type}

def Ensures (x : Except ε α) (post : α → Prop) : Prop := ∀ a, x = .ok a → post a

variable {post : α → Prop}

theorem Ensures.ok {a : α} (h : post a) : Ensures (.ok a : Except ε α) post := by
  intro b hb
  cases hb
  exact h

theorem Ensures.error (e : ε) : Ensures (.error e : Except ε α) post := by
  intro b hb
  cases hb

variable {x : Except ε α}

theorem Ensures.bind {f : α → Except ε β} {mid : α → Prop} {post : β → Prop} (hx : Ensures x mid)
    (hf : ∀ a, mid a → Ensures (f a) post) : Ensures (x >>= f) post := by
  intro b hb
  cases x with
  | error e => cases hb
  | ok a => exact hf a (hx a rfl) b hb

/-- The rule for a first computation of which only its result matters. -/
theorem Ensures.bind_eq {f : α → Except ε β} {post : β → Prop}
    (hf : ∀ a, x = .ok a → Ensures (f a) post) : Ensures (x >>= f) post :=
  Ensures.bind (fun _ h => h) hf

theorem Ensures.ite {c : Prop} [Decidable c] {y : Except ε α} (hx : c → Ensures x post)
    (hy : ¬ c → Ensures y post) : Ensures (if c then x else y) post := by
  by_cases h : c
  · rw [if_pos h]
    exact hx h
  · rw [if_neg h]
    exact hy h

theorem exists_ok_ite {c : Prop} [Decidable c] {y : Except ε α} (hx : c → ∃ a, x = .ok a)
    (hy : ¬ c → ∃ a, y = .ok a) : ∃ a, (if c then x else y) = .ok a := by
  by_cases h : c
  · rw [if_pos h]
    exact hx h
  · rw [if_neg h]
    exact hy h

theorem Ensures.mono {post' : α → Prop} (hx : Ensures x post) (h : ∀ a, post a → post' a) :
    Ensures x post' :=
  fun a ha => h a (hx a ha)

/-- A computation that was evaluated and gave a result that passes a test. -/
theorem ok_of_toOption_any {p : α → Bool} (h : x.toOption.any p = true) :
    ∃ a, x = .ok a ∧ p a = true := by
  cases x with
  | error e => cases h
  | ok a => exact ⟨a, rfl, h⟩

/-- What every turn that goes on preserves, in terms of the items done, holds after the loop. -/
theorem foldlM_invariant {step : β → α → Option β} (inv : List α → β → Prop)
    (hstep : ∀ done b a b', inv done b → step b a = some b' → inv (done ++ [a]) b')
    {items done : List α} {b b' : β} (h : inv done b) (hrun : items.foldlM step b = some b') :
    inv (done ++ items) b' := by
  induction items generalizing done b with
  | nil =>
    rw [List.foldlM_nil, Option.pure_def, Option.some.injEq] at hrun
    rw [List.append_nil, ← hrun]
    exact h
  | cons a items ih =>
    rw [List.foldlM_cons, Option.bind_eq_bind, Option.bind_eq_some_iff] at hrun
    obtain ⟨mid, hmid, hrest⟩ := hrun
    have hdone := ih (hstep done b a mid h hmid) hrest
    rwa [List.append_assoc, List.singleton_append] at hdone

end ArgusOs.Lib
