import Mathlib

set_option autoImplicit false

namespace Interleaving

variable {A K S : Type} [DecidableEq K]

def lane (key : A → K) (k : K) (actions : List A) : List A := actions.filter fun a => key a = k

/-- Two sequences of actions that agree on every lane: each is an interleaving of
the same lanes. -/
def SameLanes (key : A → K) (first second : List A) : Prop := ∀ k, lane key k first = lane key k second

section Lanes

variable {key : A → K}

theorem SameLanes.nil {second : List A} (same : SameLanes key [] second) : second = [] := by
  cases second with
  | nil => rfl
  | cons a rest =>
    have shown := same (key a)
    simp [lane] at shown

theorem SameLanes.head {a : A} {rest second : List A} (same : SameLanes key (a :: rest) second) :
    ∃ before after, second = before ++ a :: after ∧ (∀ b ∈ before, key b ≠ key a) ∧
      SameLanes key rest (before ++ after) := by
  have shown : a :: lane key (key a) rest = lane key (key a) second := by
    rw [← same (key a)]
    simp [lane]
  obtain ⟨before, after, split, apart, -, later⟩ := List.filter_eq_cons_iff.mp shown.symm
  have other : ∀ b ∈ before, key b ≠ key a := by
    intro b member
    simpa using apart b member
  refine ⟨before, after, split, other, ?_⟩
  intro k
  have lanes := same k
  rw [split] at lanes
  by_cases here : key a = k
  · subst here
    have none : lane key (key a) before = [] := by
      rw [lane, List.filter_eq_nil_iff]
      exact fun b member => by simpa using other b member
    simp only [lane, List.filter_append, List.filter_cons, decide_true, if_true] at lanes none ⊢
    rw [none, List.nil_append] at lanes ⊢
    exact List.tail_eq_of_cons_eq lanes
  · simpa [lane, List.filter_append, List.filter_cons, here] using lanes

end Lanes

section Commuting

variable (key : A → K) (step : S → A → S)
  (commutes : ∀ s a b, key a ≠ key b → step (step s a) b = step (step s b) a)
include commutes

omit [DecidableEq K] in
theorem foldl_behind {a : A} (before : List A) (apart : ∀ b ∈ before, key b ≠ key a) (s : S) :
    step (before.foldl step s) a = before.foldl step (step s a) := by
  induction before generalizing s with
  | nil => rfl
  | cons b rest ih =>
    have first := apart b (by simp)
    rw [List.foldl_cons, List.foldl_cons, ih (fun c member => apart c (by simp [member])),
      commutes s b a first]

theorem foldl_lanes (first second : List A) (same : SameLanes key first second) (s : S) :
    first.foldl step s = second.foldl step s := by
  induction first generalizing second s with
  | nil => rw [same.nil]
  | cons a rest ih =>
    obtain ⟨before, after, split, apart, later⟩ := same.head
    rw [List.foldl_cons, ih (before ++ after) later, split, List.foldl_append, List.foldl_append,
      List.foldl_cons, foldl_behind key step commutes before apart]

end Commuting

theorem view_lane {V : Type} (key : A → K) (step : S → A → S) (view : S → V) (k : K)
    (apart : ∀ s a, key a ≠ k → view (step s a) = view s)
    (here : ∀ s s' a, key a = k → view s = view s' → view (step s a) = view (step s' a))
    (actions : List A) {s s' : S} (same : view s = view s') :
    view (actions.foldl step s) = view ((lane key k actions).foldl step s') := by
  induction actions generalizing s s' with
  | nil => exact same
  | cons a rest ih =>
    by_cases mine : key a = k
    · rw [lane, List.filter_cons_of_pos (by simpa using mine), List.foldl_cons, List.foldl_cons]
      exact ih (here s s' a mine same)
    · rw [lane, List.filter_cons_of_neg (by simpa using mine), List.foldl_cons]
      exact ih ((apart s a mine).trans same)

end Interleaving
