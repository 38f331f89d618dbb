/-
  Programs that keep a log.

  `Code.Logs` is a triple for a program whose state holds a log and something else of interest,
  the rest: started with a given rest, the program only adds to the log, and what it adds, the
  rest it leaves and the value it yields satisfy the postcondition. Sequencing joins the
  additions.

  `InOrder` says of a log that it has events that satisfy given tests in the given order, and
  `remaining` decides it by one pass over the log. An event of a kind that a log has once splits
  the log in one way (`split_unique`).
-/
import ArgusOs.Lib.Interleave
import Mathlib.Data.List.Forall2

namespace ArgusOs.Lib

variable {σ ε ρ α β : Type}

/-! ## What a program adds to its log -/

def Code.Logs (log : σ → List ε) (rest : σ → ρ) (r : ρ) (c : Code σ α)
    (post : List ε → ρ → α → Prop) : Prop :=
  ∀ s, rest s = r → ∃ t, log (c.run s).1 = log s ++ t ∧ post t (rest (c.run s).1) (c.run s).2

namespace Code.Logs

variable {log : σ → List ε} {rest : σ → ρ} {r : ρ}

theorem pure {post : List ε → ρ → α → Prop} {value : α} (h : post [] r value) :
    Code.Logs log rest r (Pure.pure value) post := by
  intro s hs
  refine ⟨[], (List.append_nil _).symm, ?_⟩
  rw [Code.run_pure, hs]
  exact h

theorem bind {c : Code σ α} {k : α → Code σ β} {mid : List ε → ρ → α → Prop}
    {post : List ε → ρ → β → Prop} (hc : Code.Logs log rest r c mid)
    (hk : ∀ t r' a, mid t r' a → Code.Logs log rest r' (k a) fun t' => post (t ++ t')) :
    Code.Logs log rest r (c >>= k) post := by
  intro s hs
  obtain ⟨t, hlog, hmid⟩ := hc s hs
  obtain ⟨t', hlog', hpost⟩ := hk t _ _ hmid _ rfl
  refine ⟨t ++ t', ?_, ?_⟩
  · rw [Code.run_bind, hlog', hlog, List.append_assoc]
  · rw [Code.run_bind]
    exact hpost

theorem mono {c : Code σ α} {post post' : List ε → ρ → α → Prop}
    (hc : Code.Logs log rest r c post) (h : ∀ t r' a, post t r' a → post' t r' a) :
    Code.Logs log rest r c post' := by
  intro s hs
  obtain ⟨t, hlog, hpost⟩ := hc s hs
  exact ⟨t, hlog, h _ _ _ hpost⟩

end Code.Logs

/-! ## Events in order -/

variable (tests : List (ε → Bool)) (events : List ε)

/-- Some events of the log satisfy the tests, one each and in their order. -/
def InOrder : Prop :=
  ∃ chosen, chosen.Sublist events ∧ List.Forall₂ (fun test event => test event = true) tests chosen

/-- The tests that are left after an event. -/
def passTest : List (ε → Bool) → ε → List (ε → Bool)
  | [], _ => []
  | test :: tests, event => if test event then tests else test :: tests

def remaining : List (ε → Bool) :=
  events.foldl passTest tests

theorem remaining_append (first second : List ε) :
    remaining tests (first ++ second) = remaining (remaining tests first) second :=
  List.foldl_append ..

variable {test : ε → Bool}

theorem passTest_pass {event : ε} (h : test event = true) (tests : List (ε → Bool)) :
    passTest (test :: tests) event = tests :=
  if_pos h

theorem passTest_skip {event : ε} (h : ¬ test event = true) (tests : List (ε → Bool)) :
    passTest (test :: tests) event = test :: tests :=
  if_neg h

theorem remaining_cons (event : ε) (events : List ε) :
    remaining tests (event :: events) = remaining (passTest tests event) events := rfl

@[simp] theorem remaining_done : remaining [] events = [] := by
  induction events with
  | nil => rfl
  | cons event events ih => exact ih

/-- Events that fail every test change nothing. -/
theorem remaining_idle {tests : List (ε → Bool)} {events : List ε}
    (h : ∀ test ∈ tests, ∀ event ∈ events, test event = false) :
    remaining tests events = tests := by
  cases tests with
  | nil => exact remaining_done events
  | cons test tests =>
    have hfirst := h test List.mem_cons_self
    clear h
    induction events with
    | nil => rfl
    | cons event events ih =>
      rw [remaining_cons, passTest_skip (by rw [hfirst event List.mem_cons_self]; decide)]
      exact ih fun other hother => hfirst other (List.mem_cons_of_mem _ hother)

theorem inOrder_nil : InOrder [] events :=
  ⟨[], List.nil_sublist _, .nil⟩

theorem InOrder.mem {tests : List (ε → Bool)} {events : List ε} (h : InOrder tests events)
    (htest : test ∈ tests) : ∃ event ∈ events, test event = true := by
  obtain ⟨chosen, hsub, hall⟩ := h
  have hchosen : ∃ event ∈ chosen, test event = true := by
    clear hsub
    induction hall with
    | nil => cases htest
    | cons hpass _ ih =>
      rcases List.mem_cons.mp htest with rfl | htest
      · exact ⟨_, List.mem_cons_self, hpass⟩
      · obtain ⟨event, hmem, hevent⟩ := ih htest
        exact ⟨event, List.mem_cons_of_mem _ hmem, hevent⟩
  obtain ⟨event, hmem, hpass⟩ := hchosen
  exact ⟨event, hsub.subset hmem, hpass⟩

/-- The first event is taken for the first test whenever it satisfies it. -/
theorem inOrder_cons_cons (test : ε → Bool) (tests : List (ε → Bool)) (event : ε)
    (events : List ε) :
    InOrder (test :: tests) (event :: events) ↔
      InOrder (passTest (test :: tests) event) events := by
  by_cases htest : test event = true
  · rw [passTest_pass htest]
    constructor
    · rintro ⟨chosen, hsub, hall⟩
      rcases List.forall₂_cons_left_iff.mp hall with ⟨first, others, -, hothers, rfl⟩
      exact ⟨others, hsub.tail, hothers⟩
    · rintro ⟨chosen, hsub, hall⟩
      exact ⟨event :: chosen, hsub.cons_cons _, .cons htest hall⟩
  · rw [passTest_skip htest]
    constructor
    · rintro ⟨chosen, hsub, hall⟩
      rcases List.forall₂_cons_left_iff.mp hall with ⟨first, others, hfirst, -, rfl⟩
      cases hsub with
      | cons _ hsub => exact ⟨_, hsub, hall⟩
      | cons_cons _ _ => exact absurd hfirst htest
    · rintro ⟨chosen, hsub, hall⟩
      exact ⟨chosen, hsub.cons _, hall⟩

theorem inOrder_iff : InOrder tests events ↔ remaining tests events = [] := by
  induction events generalizing tests with
  | nil =>
    cases tests with
    | nil => exact iff_of_true (inOrder_nil _) rfl
    | cons test tests =>
      refine iff_of_false ?_ (List.cons_ne_nil _ _)
      rintro ⟨chosen, hsub, hall⟩
      rw [List.sublist_nil.mp hsub] at hall
      cases hall
  | cons event events ih =>
    cases tests with
    | nil => exact iff_of_true (inOrder_nil _) (remaining_done _)
    | cons test tests =>
      rw [inOrder_cons_cons, ih]
      rfl

/-! ## An event that a log has once -/

theorem split_unique {kind : ε → Bool} {before after before' after' : List ε} {event event' : ε}
    (hbefore : ∀ e ∈ before, kind e = false) (hafter : ∀ e ∈ after, kind e = false)
    (hkind : kind event' = true) (h : before ++ event :: after = before' ++ event' :: after') :
    before = before' ∧ event = event' ∧ after = after' := by
  induction before generalizing before' with
  | nil =>
    cases before' with
    | nil =>
      obtain ⟨h1, h2⟩ := List.cons.inj h
      exact ⟨rfl, h1, h2⟩
    | cons first others =>
      -- the other event of the kind would come after the only one
      obtain ⟨-, h2⟩ := List.cons.inj h
      have hno := hafter event' (by rw [h2]; exact List.mem_append_right _ List.mem_cons_self)
      rw [hkind] at hno
      cases hno
  | cons first others ih =>
    cases before' with
    | nil =>
      obtain ⟨h1, -⟩ := List.cons.inj h
      have hno := hbefore first List.mem_cons_self
      rw [h1, hkind] at hno
      cases hno
    | cons first' others' =>
      obtain ⟨h1, h2⟩ := List.cons.inj h
      obtain ⟨h3, h4, h5⟩ := ih (fun e he => hbefore e (List.mem_cons_of_mem _ he)) h2
      exact ⟨by rw [h1, h3], h4, h5⟩

end ArgusOs.Lib
