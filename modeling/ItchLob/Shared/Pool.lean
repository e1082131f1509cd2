import ItchLob.Shared.FiniteMap

set_option autoImplicit false

namespace Pool

open FiniteMap

section Swap

variable {α : Type} {xs : List α} {i : Nat} {a : α}

def swapRemove (xs : List α) (i : Nat) : List α :=
  match xs.getLast? with
  | none => xs
  | some last => (xs.set i last).dropLast

theorem set_perm (here : xs[i]? = some a) (b : α) : (a :: xs.set i b).Perm (b :: xs) := by
  obtain ⟨inside, rfl⟩ := List.getElem?_eq_some_iff.mp here
  have whole := List.getElem_cons_eraseIdx_perm inside
  exact ((List.set_perm_cons_eraseIdx inside b).cons _).trans ((List.Perm.swap ..).trans (whole.cons b))

theorem swapRemove_perm (here : xs[i]? = some a) : xs.Perm (a :: swapRemove xs i) := by
  cases xs using List.reverseRecOn with
  | nil => cases here
  | append_singleton front last =>
    have swapped : swapRemove (front ++ [last]) i = ((front ++ [last]).set i last).dropLast := by
      rw [swapRemove, List.getLast?_concat]
    rw [swapped]
    by_cases inside : i < front.length
    · rw [List.getElem?_append_left inside] at here
      rw [List.set_append_left _ _ inside, List.dropLast_concat]
      exact (List.perm_append_singleton last front).trans (set_perm here last).symm
    · have final : i = front.length := by
        have bound := (List.getElem?_eq_some_iff.mp here).1
        simp only [List.length_append, List.length_singleton] at bound
        omega
      subst final
      rw [List.getElem?_concat_length] at here
      obtain rfl := Option.some.inj here
      rw [List.set_append_right _ _ (Nat.le_refl _), Nat.sub_self, List.set_cons_zero, List.dropLast_concat]
      exact List.perm_append_singleton last front

end Swap

section Mirrors

variable {α K V : Type} [DecidableEq K] (key : α → K) (val : α → V)

structure Mirrors (pool : List α) (map : Map K V) : Prop where
  nodup : (pool.map key).Nodup
  lookup : ∀ k v, map.lookup k = some v ↔ ∃ a ∈ pool, key a = k ∧ val a = v

variable {key val} {pool other : List α} {map : Map K V} {a : α}

theorem mirrors_empty : Mirrors key val [] (∅ : Map K V) :=
  ⟨List.nodup_nil, fun k v => by simp⟩

theorem Mirrors.perm (mirrors : Mirrors key val pool map) (same : pool.Perm other) : Mirrors key val other map := by
  refine ⟨(same.map key).nodup_iff.mp mirrors.nodup, fun k v => ?_⟩
  rw [mirrors.lookup]
  exact exists_congr fun a => and_congr_left' same.mem_iff

theorem Mirrors.found (mirrors : Mirrors key val (a :: pool) map) : map.lookup (key a) = some (val a) :=
  (mirrors.lookup _ _).mpr ⟨a, List.mem_cons_self, rfl, rfl⟩

theorem Mirrors.absent (mirrors : Mirrors key val pool map) (fresh : ∀ b ∈ pool, key b ≠ key a) :
    map.lookup (key a) = none := by
  cases found : map.lookup (key a) with
  | none => rfl
  | some v =>
    obtain ⟨b, inside, same, -⟩ := (mirrors.lookup _ _).mp found
    exact absurd same (fresh b inside)

theorem Mirrors.head_apart (mirrors : Mirrors key val (a :: pool) map) : ∀ b ∈ pool, key b ≠ key a := by
  intro b inside same
  have nodup := mirrors.nodup
  rw [List.map_cons, List.nodup_cons] at nodup
  exact nodup.1 (same ▸ List.mem_map_of_mem inside)

theorem Mirrors.insert (mirrors : Mirrors key val pool map) (fresh : ∀ b ∈ pool, key b ≠ key a) :
    Mirrors key val (a :: pool) (map.insert (key a) (val a)) := by
  constructor
  · rw [List.map_cons, List.nodup_cons]
    refine ⟨fun inside => ?_, mirrors.nodup⟩
    obtain ⟨b, there, same⟩ := List.mem_map.mp inside
    exact fresh b there same
  · intro k v
    rw [lookup_insert_eq]
    by_cases here : k = key a
    · subst here
      simp only [if_true, Option.some.injEq, List.mem_cons, exists_eq_or_imp, true_and]
      refine ⟨.inl, fun listed => listed.elim id fun ⟨b, inside, same, _⟩ => absurd same (fresh b inside)⟩
    · rw [if_neg here, mirrors.lookup]
      simp only [List.mem_cons, exists_eq_or_imp, Ne.symm here, false_and, false_or]

theorem Mirrors.erase (mirrors : Mirrors key val (a :: pool) map) : Mirrors key val pool (map.erase (key a)) := by
  constructor
  · exact (List.nodup_cons.mp mirrors.nodup).2
  · intro k v
    rw [lookup_erase_eq]
    by_cases here : k = key a
    · subst here
      simp only [if_true, reduceCtorEq, false_iff]
      rintro ⟨b, inside, same, -⟩
      exact mirrors.head_apart b inside same
    · rw [if_neg here, mirrors.lookup]
      simp only [List.mem_cons, exists_eq_or_imp, Ne.symm here, false_and, false_or]

theorem Mirrors.update (mirrors : Mirrors key val (a :: pool) map) {b : α} (same : key b = key a) :
    Mirrors key val (b :: pool) (map.insert (key a) (val b)) := by
  have apart : ∀ c ∈ pool, key c ≠ key b := fun c inside => same ▸ mirrors.head_apart c inside
  have renewed := mirrors.erase.insert apart
  refine ⟨renewed.nodup, fun k v => ?_⟩
  rw [← renewed.lookup, lookup_insert_eq, lookup_insert_eq, lookup_erase_eq, same]
  split <;> rfl

end Mirrors

end Pool
