import Mathlib.Data.List.Induction

set_option autoImplicit false

namespace Transition

variable {S T A B : Type}

/-- A system of atomic moves: `step s a = none` when the move `a` is not enabled. -/
inductive Reachable (step : S → A → Option S) (start : S) : S → Prop where
  | start : Reachable step start start
  | move {s s' : S} (a : A) : Reachable step start s → step s a = some s' → Reachable step start s'

-- The moves of a schedule, one after the other; none when one is not enabled.
def execute (step : S → A → Option S) : S → List A → Option S
  | s, [] => some s
  | s, a :: rest => (step s a).bind fun s' => execute step s' rest

section Rules

variable {step : S → A → Option S} {start : S}

theorem Reachable.invariant {holds : S → Prop} {s : S} (reachable : Reachable step start s)
    (initial : holds start)
    (keeps : ∀ s a s', Reachable step start s → holds s → step s a = some s' → holds s') : holds s := by
  induction reachable with
  | start => exact initial
  | move a before taken ih => exact keeps _ a _ before ih taken

theorem Reachable.execute {s s' : S} {schedule : List A} (reachable : Reachable step start s)
    (runs : execute step s schedule = some s') : Reachable step start s' := by
  induction schedule generalizing s with
  | nil => exact Option.some.inj runs ▸ reachable
  | cons a rest ih =>
    obtain ⟨next, taken, onward⟩ := Option.bind_eq_some_iff.mp runs
    exact ih (.move a reachable taken) onward

theorem execute_append (s : S) (before after : List A) :
    execute step s (before ++ after) = (execute step s before).bind fun t => execute step t after := by
  induction before generalizing s with
  | nil => rfl
  | cons a rest ih =>
    rw [List.cons_append, execute, execute, Option.bind_assoc]
    exact congrArg _ (funext fun s' => ih s')

theorem execute_snoc {s s' : S} {schedule : List A} {a : A} (runs : execute step s (schedule ++ [a]) = some s') :
    ∃ t, execute step s schedule = some t ∧ step t a = some s' := by
  rw [execute_append] at runs
  obtain ⟨t, before, last⟩ := Option.bind_eq_some_iff.mp runs
  obtain ⟨t', taken, same⟩ := Option.bind_eq_some_iff.mp last
  exact ⟨t, before, taken.trans same⟩

theorem execute_invariant {holds : List A → S → Prop} {s s' : S} {schedule : List A}
    (runs : execute step s schedule = some s') (initial : holds [] s)
    (keeps : ∀ done t a t', execute step s done = some t → holds done t → step t a = some t' →
      holds (done ++ [a]) t') : holds schedule s' := by
  induction schedule using List.reverseRecOn generalizing s' with
  | nil => exact Option.some.inj runs ▸ initial
  | append_singleton done a ih =>
    obtain ⟨t, before, taken⟩ := execute_snoc runs
    exact keeps done t a s' before (ih before) taken

def Passes (step : S → A → Option S) (s : S) (schedule : List A) (seen : S → Prop) : Prop :=
  ∃ during t, during <+: schedule ∧ execute step s during = some t ∧ seen t

theorem Passes.snoc {s : S} {schedule : List A} {seen : S → Prop} (passes : Passes step s schedule seen) (a : A) :
    Passes step s (schedule ++ [a]) seen := by
  obtain ⟨during, t, within, runs, here⟩ := passes
  exact ⟨during, t, within.trans (List.prefix_append _ _), runs, here⟩

theorem Passes.last {s t : S} {schedule : List A} {seen : S → Prop} (runs : execute step s schedule = some t)
    (here : seen t) : Passes step s schedule seen :=
  ⟨schedule, t, List.prefix_rfl, runs, here⟩

end Rules

end Transition
