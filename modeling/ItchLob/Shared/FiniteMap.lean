import Mathlib

set_option autoImplicit false

namespace FiniteMap

-- A finite map is an association list without repeated keys. Hash maps and
-- ordered maps are both read through it; an ordered map adds its first key.
abbrev Map (K V : Type) := AList fun _ : K => V

variable {K V : Type}

def size (s : Map K V) : Nat := s.entries.length

def total (f : V → Nat) (s : Map K V) : Nat := (s.entries.map fun e => f e.2).sum

theorem total_le (f : V → Nat) (bound : Nat) (s : Map K V) (bounded : ∀ v, f v ≤ bound) :
    total f s ≤ size s * bound := by
  have sum := List.sum_le_card_nsmul (s.entries.map fun e => f e.2) bound (by
    intro value member
    obtain ⟨entry, -, rfl⟩ := List.mem_map.mp member
    exact bounded entry.2)
  simpa [total, size] using sum

variable [DecidableEq K]

theorem lookup_insert_eq (s : Map K V) (k a : K) (v : V) :
    (s.insert k v).lookup a = if a = k then some v else s.lookup a := by
  by_cases same : a = k
  · subst same
    simp
  · simp [same, AList.lookup_insert_ne same]

theorem found_insert (s : Map K V) (k a : K) (v : V) :
    (s.insert k v).lookup a ≠ none ↔ a = k ∨ s.lookup a ≠ none := by
  rw [lookup_insert_eq]
  split
  next same => simp [same]
  next apart => simp [apart]

theorem lookup_erase_eq (s : Map K V) (k a : K) :
    (s.erase k).lookup a = if a = k then none else s.lookup a := by
  by_cases same : a = k
  · subst same
    simp
  · simp [same, AList.lookup_erase_ne same]

theorem absent_found {s : Map K V} {k : K} {v : V} (absent : s.lookup k = none) (found : s.lookup k = some v) :
    False := Option.some_ne_none v (found.symm.trans absent)

theorem found_erase {s : Map K V} {k a : K} {v : V} (found : (s.erase k).lookup a = some v) :
    s.lookup a = some v := by
  rw [lookup_erase_eq] at found
  split at found
  · cases found
  · exact found

theorem mem_of_lookup {s : Map K V} {k : K} {v : V} (found : s.lookup k = some v) : k ∈ s :=
  AList.lookup_isSome.mp (by simp [found])

theorem lookup_of_mem {s : Map K V} {k : K} (member : k ∈ s) : ∃ v, s.lookup k = some v :=
  Option.isSome_iff_exists.mp (AList.lookup_isSome.mpr member)

theorem lookup_iff_entry {s : Map K V} {k : K} {v : V} :
    s.lookup k = some v ↔ (⟨k, v⟩ : Sigma fun _ : K => V) ∈ s.entries :=
  AList.mem_lookup_iff

theorem entries_perm {s : Map K V} {k : K} {v : V} (found : s.lookup k = some v) :
    s.entries.Perm (⟨k, v⟩ :: (s.erase k).entries) := by
  obtain ⟨value, before, after, absent, split, erased⟩ :=
    List.exists_of_kerase (mem_of_lookup found : k ∈ s.entries.keys)
  have same : value = v := by
    have entry : s.lookup k = some value := lookup_iff_entry.mpr (by simp [split])
    exact Option.some.inj (entry.symm.trans found)
  subst same
  change s.entries.Perm (_ :: s.entries.kerase k)
  rw [erased, split]
  exact List.perm_middle

theorem size_insert_fresh {s : Map K V} {k : K} (v : V) (absent : s.lookup k = none) :
    size (s.insert k v) = size s + 1 := by
  rw [size, AList.entries_insert_of_notMem (AList.lookup_eq_none.mp absent), List.length_cons, size]

theorem size_erase {s : Map K V} {k : K} {v : V} (found : s.lookup k = some v) :
    size s = size (s.erase k) + 1 := by
  simpa [size] using (entries_perm found).length_eq

theorem size_insert_found {s : Map K V} {k : K} {v : V} (w : V) (found : s.lookup k = some v) :
    size (s.insert k w) = size s := by
  have before := size_erase found
  simp only [size, AList.entries_insert, List.length_cons] at before ⊢
  exact before.symm

theorem total_insert_fresh (f : V → Nat) {s : Map K V} {k : K} (v : V)
    (absent : s.lookup k = none) : total f (s.insert k v) = f v + total f s := by
  rw [total, AList.entries_insert_of_notMem (AList.lookup_eq_none.mp absent), List.map_cons,
    List.sum_cons, total]

theorem total_erase (f : V → Nat) {s : Map K V} {k : K} {v : V} (found : s.lookup k = some v) :
    total f s = f v + total f (s.erase k) := by
  simpa [total] using ((entries_perm found).map fun e => f e.2).sum_eq

theorem total_pos {f : V → Nat} {s : Map K V} :
    0 < total f s ↔ ∃ k v, s.lookup k = some v ∧ 0 < f v := by
  constructor
  · intro positive
    by_contra none
    push Not at none
    have zero : total f s = 0 := by
      apply List.sum_eq_zero
      intro value member
      obtain ⟨entry, inside, rfl⟩ := List.mem_map.mp member
      exact Nat.le_zero.mp (none entry.1 entry.2 (lookup_iff_entry.mpr inside))
    omega
  · rintro ⟨k, v, found, positive⟩
    have split := total_erase f found
    omega

theorem size_keys (s : Map K V) : s.keys.toFinset.card = size s := by
  rw [List.toFinset_card_of_nodup s.keys_nodup, AList.keys, List.keys, List.length_map]
  rfl

theorem mem_keys_iff (s : Map K V) (k : K) : k ∈ s.keys.toFinset ↔ s.lookup k ≠ none := by
  rw [List.mem_toFinset, AList.mem_keys.symm, ← AList.lookup_isSome, Option.isSome_iff_ne_none]

theorem size_le_card {s : Map K V} (keys : Finset K) (within : ∀ k, s.lookup k ≠ none → k ∈ keys) :
    size s ≤ keys.card := by
  rw [← size_keys]
  exact Finset.card_le_card fun k inside => within k ((mem_keys_iff s k).mp inside)

theorem size_eq_card {s : Map K V} (keys : Finset K) (same : ∀ k, s.lookup k ≠ none ↔ k ∈ keys) :
    size s = keys.card := by
  rw [← size_keys]
  congr 1
  ext k
  rw [mem_keys_iff, same]

theorem eq_empty {s : Map K V} (none : ∀ k, s.lookup k = none) : s = ∅ := by
  have small := size_le_card (s := s) ∅ fun k there => absurd (none k) there
  exact AList.ext (List.eq_nil_of_length_eq_zero (Nat.le_zero.mp small))

section First

variable [LinearOrder K]

def first (s : Map K V) : Option (K × V) :=
  s.keys.min?.bind fun k => (s.lookup k).map fun v => (k, v)

theorem first_eq_some {s : Map K V} {k : K} {v : V} :
    first s = some (k, v) ↔ s.lookup k = some v ∧ ∀ a w, s.lookup a = some w → k ≤ a := by
  simp only [first, Option.bind_eq_some_iff, Option.map_eq_some_iff, Prod.mk.injEq]
  constructor
  · rintro ⟨key, least, value, found, rfl, rfl⟩
    refine ⟨found, fun a w there => ?_⟩
    exact (List.min?_eq_some_iff.mp least).2 a (AList.mem_keys.mp (mem_of_lookup there))
  · rintro ⟨found, least⟩
    refine ⟨k, List.min?_eq_some_iff.mpr ⟨AList.mem_keys.mp (mem_of_lookup found), ?_⟩, v, found, rfl, rfl⟩
    intro a inside
    obtain ⟨w, there⟩ := lookup_of_mem (AList.mem_keys.mpr inside)
    exact least a w there

theorem first_eq_none {s : Map K V} : first s = none ↔ ∀ a, s.lookup a = none := by
  constructor
  · intro missing a
    by_contra there
    obtain ⟨w, found⟩ := Option.ne_none_iff_exists'.mp there
    have inside := AList.mem_keys.mp (mem_of_lookup found)
    cases least : s.keys.min? with
    | none => simp [List.min?_eq_none_iff.mp least] at inside
    | some k =>
      have member := (List.min?_eq_some_iff.mp least).1
      obtain ⟨v, value⟩ := lookup_of_mem (AList.mem_keys.mpr member)
      simp [first, least, value] at missing
  · intro empty
    cases least : s.keys.min? with
    | none => simp [first, least]
    | some k => simp [first, least, empty k]

theorem first_of_lookup {s : Map K V} {k : K} {v : V} (found : s.lookup k = some v) :
    ∃ a w, first s = some (a, w) := by
  cases least : first s with
  | none =>
    rw [first_eq_none.mp least k] at found
    cases found
  | some entry => exact ⟨entry.1, entry.2, rfl⟩

end First

end FiniteMap
