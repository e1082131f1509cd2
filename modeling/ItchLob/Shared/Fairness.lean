import ItchLob.Shared.Transition
import Mathlib.Data.Nat.Pairing
import Mathlib.Order.WellFounded
import Mathlib.Tactic.Basic

set_option autoImplicit false

namespace Fairness

variable {S A W : Type}

-- Where an infinite schedule leads; a turn that is not enabled is passed over.
def along (step : S → A → Option S) (start : S) (schedule : Nat → A) : Nat → S
  | 0 => start
  | n + 1 =>
    (step (along step start schedule n) (schedule n)).getD (along step start schedule n)

def FairTo (schedule : Nat → A) (mine : A → Prop) : Prop := ∀ n, ∃ m, n ≤ m ∧ mine (schedule m)

def Fair (schedule : Nat → A) : Prop := ∀ a, FairTo schedule fun b => b = a

def LeadsTo (run : Nat → S) (before after : S → Prop) : Prop :=
  ∀ n, before (run n) → ∃ m, n ≤ m ∧ after (run m)

theorem FairTo.mono {schedule : Nat → A} {mine wider : A → Prop} (fair : FairTo schedule mine)
    (within : ∀ a, mine a → wider a) : FairTo schedule wider := by
  intro n
  obtain ⟨m, later, turn⟩ := fair n
  exact ⟨m, later, within _ turn⟩

section Rules

variable {step : S → A → Option S} {start : S} {schedule : Nat → A}

variable (step start schedule) in
theorem along_succ (n : Nat) :
    along step start schedule (n + 1) = along step start schedule n ∨
      step (along step start schedule n) (schedule n) = some (along step start schedule (n + 1)) := by
  cases taken : step (along step start schedule n) (schedule n) with
  | none =>
    left
    rw [along, taken, Option.getD_none]
  | some s' =>
    right
    rw [along, taken, Option.getD_some]

theorem along_taken {n : Nat} {s' : S} (taken : step (along step start schedule n) (schedule n) = some s') :
    along step start schedule (n + 1) = s' := by
  rw [along, taken, Option.getD_some]

theorem along_reachable (n : Nat) : Transition.Reachable step start (along step start schedule n) := by
  induction n with
  | zero => exact .start
  | succ n ih =>
    rcases along_succ step start schedule n with same | taken
    · rw [same]
      exact ih
    · exact .move _ ih taken

theorem along_keeps {holds : S → Prop} (keeps : ∀ s a s', holds s → step s a = some s' → holds s') {n m : Nat}
    (later : n ≤ m) (here : holds (along step start schedule n)) : holds (along step start schedule m) := by
  induction m, later using Nat.le_induction with
  | base => exact here
  | succ m _ ih =>
    rcases along_succ step start schedule m with same | taken
    · rw [same]
      exact ih
    · exact keeps _ _ _ ih taken

theorem along_stuck {n m : Nat} (later : n ≤ m) (stuck : ∀ a, step (along step start schedule n) a = none) :
    along step start schedule m = along step start schedule n := by
  induction m, later using Nat.le_induction with
  | base => rfl
  | succ m _ ih => rw [along, ih, stuck, Option.getD_none]

/-- The rank rule. While the goal is not met, every state names the turns that
help it: each of them is enabled and lowers the rank, and any other one lowers
the rank too or leaves it, and the helpful turns, as they are. -/
theorem leads_by_rank [Preorder W] [WellFoundedLT W] (holds goal : S → Prop) (rank : S → W)
    (helpful : S → A → Prop) (keeps : ∀ s a s', holds s → step s a = some s' → holds s')
    (moves : ∀ s a s', holds s → step s a = some s' →
      goal s' ∨ rank s' < rank s ∨ (rank s' = rank s ∧ helpful s' = helpful s ∧ ¬ helpful s a))
    (enabled : ∀ s a, holds s → ¬ goal s → helpful s a → ∃ s', step s a = some s')
    (fair : ∀ s, holds s → ¬ goal s → FairTo schedule (helpful s)) :
    LeadsTo (along step start schedule) holds goal := by
  suffices descends : ∀ (w : W) (n : Nat), holds (along step start schedule n) →
      rank (along step start schedule n) = w → ∃ m, n ≤ m ∧ goal (along step start schedule m) from
    fun n here => descends _ n here rfl
  intro w
  induction w using WellFoundedLT.induction with
  | ind w ih =>
    intro n here ranked
    by_cases met : goal (along step start schedule n)
    · exact ⟨n, Nat.le_refl n, met⟩
    have drops {k : Nat} (later : n ≤ k) (lower : rank (along step start schedule (k + 1)) < w) :
        ∃ m, n ≤ m ∧ goal (along step start schedule m) := by
      obtain ⟨m, last, reached⟩ := ih _ lower (k + 1) (along_keeps keeps (by omega) here) rfl
      exact ⟨m, by omega, reached⟩
    obtain ⟨turn, after, useful⟩ := fair _ here met n
    -- Up to that turn the rank has dropped already, or every move has left it and its helpers.
    have waits (k : Nat) (first : n ≤ k) (last : k ≤ turn) :
        (∃ m, n ≤ m ∧ goal (along step start schedule m)) ∨ (rank (along step start schedule k) = w ∧
          helpful (along step start schedule k) = helpful (along step start schedule n) ∧
          ¬ goal (along step start schedule k)) := by
      induction k, first using Nat.le_induction with
      | base => exact .inr ⟨ranked, rfl, met⟩
      | succ k first wait =>
        rcases wait (by omega) with done | ⟨same, turns, unmet⟩
        · exact .inl done
        rcases along_succ step start schedule k with skipped | taken
        · rw [skipped]
          exact .inr ⟨same, turns, unmet⟩
        by_cases done : goal (along step start schedule (k + 1))
        · exact .inl ⟨k + 1, by omega, done⟩
        rcases moves _ _ _ (along_keeps keeps first here) taken with met' | lower | ⟨kept, turns', -⟩
        · exact absurd met' done
        · exact .inl (drops first (same ▸ lower))
        · exact .inr ⟨kept.trans same, turns'.trans turns, done⟩
    rcases waits turn after (Nat.le_refl turn) with done | ⟨same, turns, unmet⟩
    · exact done
    have now := along_keeps keeps after here
    rw [← turns] at useful
    obtain ⟨s', taken⟩ := enabled _ _ now unmet useful
    have progress := moves _ _ _ now taken
    rw [← along_taken taken] at progress
    rcases progress with done | lower | ⟨-, -, idle⟩
    · exact ⟨turn + 1, by omega, done⟩
    · exact drops after (same ▸ lower)
    · exact absurd useful idle

end Rules

-- Of two parties, each takes every other turn.
def alternate (first second : A) (n : Nat) : A := if n % 2 = 0 then first else second

theorem alternate_first (first second : A) : FairTo (alternate first second) fun b => b = first := by
  intro n
  exact ⟨2 * n, by omega, if_pos (by omega)⟩

theorem alternate_second (first second : A) : FairTo (alternate first second) fun b => b = second := by
  intro n
  exact ⟨2 * n + 1, by omega, if_neg (by omega)⟩

-- Infinitely many turns after an opening, each of them again and again.
def dovetail (opening : List A) (turns : Nat → A) (n : Nat) : A :=
  opening.getD n (turns (n - opening.length).unpair.1)

theorem dovetail_later (opening : List A) (turns : Nat → A) {n : Nat} (later : opening.length ≤ n) :
    dovetail opening turns n = turns (n - opening.length).unpair.1 := by
  rw [dovetail, List.getD_eq_getElem?_getD, List.getElem?_eq_none later, Option.getD_none]

theorem dovetail_fair (opening : List A) (turns : Nat → A) (k : Nat) :
    FairTo (dovetail opening turns) fun b => b = turns k := by
  intro n
  refine ⟨Nat.pair k n + opening.length, (Nat.right_le_pair k n).trans (Nat.le_add_right _ _), ?_⟩
  rw [dovetail_later opening turns (Nat.le_add_left _ _), Nat.add_sub_cancel, Nat.unpair_pair]

end Fairness
