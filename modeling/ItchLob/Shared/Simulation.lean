set_option autoImplicit false

namespace Simulation

variable {S T A R V : Type}

-- What a run shows: each action's answer and what the state reads afterwards.
def trace (step : S → A → R × S) (view : S → V) : S → List A → List (R × V)
  | _, [] => []
  | s, a :: rest => ((step s a).1, view (step s a).2) :: trace step view (step s a).2 rest

def run (step : S → A → R × S) : S → List A → S
  | s, [] => s
  | s, a :: rest => run step (step s a).2 rest

/-- The relation may depend on how many actions have been taken, so that it can
carry bounds that only hold for runs shorter than `limit`. -/
structure Bounded (limit : Nat) (step : S → A → R × S) (step' : T → A → R × T)
    (related : Nat → S → T → Prop) : Prop where
  answer : ∀ n s t a, n < limit → related n s t → (step s a).1 = (step' t a).1
  next : ∀ n s t a, n < limit → related n s t → related (n + 1) (step s a).2 (step' t a).2

section Rules

variable {limit : Nat} {step : S → A → R × S} {step' : T → A → R × T}
  {related : Nat → S → T → Prop}

theorem Bounded.trace_eq {view : S → V} {view' : T → V} (sound : Bounded limit step step' related)
    (views : ∀ n s t, n ≤ limit → related n s t → view s = view' t) (actions : List A) (n : Nat)
    (short : n + actions.length ≤ limit) (s : S) (t : T) (start : related n s t) :
    trace step view s actions = trace step' view' t actions := by
  induction actions generalizing n s t with
  | nil => rfl
  | cons a rest ih =>
    simp only [List.length_cons] at short
    have after := sound.next n s t a (by omega) start
    simp only [trace]
    rw [sound.answer n s t a (by omega) start, views (n + 1) _ _ (by omega) after,
      ih (n + 1) (by omega) _ _ after]

theorem Bounded.run_related (sound : Bounded limit step step' related) (actions : List A) (n : Nat)
    (short : n + actions.length ≤ limit) (s : S) (t : T) (start : related n s t) :
    related (n + actions.length) (run step s actions) (run step' t actions) := by
  induction actions generalizing n s t with
  | nil => exact start
  | cons a rest ih =>
    simp only [List.length_cons] at short ⊢
    have after := sound.next n s t a (by omega) start
    have done := ih (n + 1) (by omega) _ _ after
    rwa [Nat.add_right_comm] at done

end Rules

end Simulation
