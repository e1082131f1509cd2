import Mathlib.Data.List.Basic

set_option autoImplicit false

namespace Reads

structure Access where
  index : Nat
  part : Option (Nat × Nat) := none
  deriving DecidableEq, Repr

structure Traced (A : Type) where
  value : A
  accesses : List Access

instance : Monad Traced where
  pure a := ⟨a, []⟩
  bind t next := ⟨(next t.value).value, t.accesses ++ (next t.value).accesses⟩

section Operations

variable {A B : Type}

def element (input : List A) (blank : A) (i : Nat) : Traced A := ⟨input.getD i blank, [{ index := i }]⟩

def elements (input : List A) (blank : A) : Nat → Nat → Traced (List A)
  | _, 0 => pure []
  | i, n + 1 => do
    let head ← element input blank i
    let rest ← elements input blank (i + 1) n
    return head :: rest

-- Every read of `t` is made while this part is decoded.
def decoding (part : Nat × Nat) (t : Traced A) : Traced A :=
  { value := t.value, accesses := t.accesses.map fun access => { access with part := some part } }

def Inside (low high : Nat) (t : Traced A) : Prop :=
  ∀ access ∈ t.accesses, low ≤ access.index ∧ access.index < high

@[simp] theorem value_pure (a : A) : (pure a : Traced A).value = a := rfl

@[simp] theorem value_bind (t : Traced A) (next : A → Traced B) : (t >>= next).value = (next t.value).value := rfl

@[simp] theorem value_element (input : List A) (blank : A) (i : Nat) :
    (element input blank i).value = input.getD i blank := rfl

@[simp] theorem value_decoding (part : Nat × Nat) (t : Traced A) : (decoding part t).value = t.value := rfl

theorem value_elements (input : List A) (blank : A) (i n : Nat) (inside : i + n ≤ input.length) :
    (elements input blank i n).value = (input.drop i).take n := by
  induction n generalizing i with
  | zero => rw [List.take_zero]; rfl
  | succ n ih =>
    have here : i < input.length := by omega
    simp only [elements, value_bind, value_element, value_pure]
    rw [ih (i + 1) (by omega), List.drop_eq_getElem_cons here, List.take_succ_cons,
      List.getD_eq_getElem?_getD, List.getElem?_eq_getElem here, Option.getD_some]

@[simp] theorem accesses_pure (a : A) : (pure a : Traced A).accesses = [] := rfl

@[simp] theorem accesses_bind (t : Traced A) (next : A → Traced B) :
    (t >>= next).accesses = t.accesses ++ (next t.value).accesses := rfl

@[simp] theorem inside_pure (low high : Nat) (a : A) : Inside low high (pure a) := by
  simp [Inside]

@[simp] theorem inside_bind (low high : Nat) (t : Traced A) (next : A → Traced B) :
    Inside low high (t >>= next) ↔ Inside low high t ∧ Inside low high (next t.value) := by
  simp only [Inside, accesses_bind, List.forall_mem_append]

@[simp] theorem inside_element (low high : Nat) (input : List A) (blank : A) (i : Nat) :
    Inside low high (element input blank i) ↔ low ≤ i ∧ i < high := by
  simp [Inside, element]

theorem inside_elements (low high : Nat) (input : List A) (blank : A) (i n : Nat) (positive : 0 < n) :
    Inside low high (elements input blank i n) ↔ low ≤ i ∧ i + n ≤ high := by
  induction n generalizing i with
  | zero => exact absurd positive (Nat.lt_irrefl 0)
  | succ n ih =>
    simp only [elements, inside_bind, inside_element, inside_pure, and_true]
    rcases Nat.eq_zero_or_pos n with zero | more
    · simp only [zero, elements, inside_pure, and_true]
      omega
    · rw [ih (i + 1) more]
      omega

end Operations

end Reads
