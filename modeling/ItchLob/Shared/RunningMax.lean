set_option autoImplicit false

namespace RunningMax

variable {α : Type}

structure Highest (f : α → Nat) (xs : List α) (y : Nat) : Prop where
  reached : ∀ x ∈ xs, f x ≤ y
  attained : y = 0 ∨ ∃ x ∈ xs, y = f x

variable {f : α → Nat} {xs : List α} {x : α} {y : Nat}

theorem highest_nil : Highest f [] 0 := ⟨fun _ member => absurd member List.not_mem_nil, .inl rfl⟩

theorem Highest.keep (highest : Highest f xs y) (enough : f x ≤ y) : Highest f (xs ++ [x]) y := by
  refine ⟨List.forall_mem_append.mpr ⟨highest.reached, List.forall_mem_singleton.mpr enough⟩, ?_⟩
  rcases highest.attained with zero | ⟨u, member, same⟩
  · exact .inl zero
  · exact .inr ⟨u, List.mem_append_left _ member, same⟩

theorem Highest.raise (highest : Highest f xs y) (behind : y ≤ f x) : Highest f (xs ++ [x]) (f x) := by
  refine ⟨List.forall_mem_append.mpr ⟨?_, List.forall_mem_singleton.mpr (Nat.le_refl _)⟩,
    .inr ⟨x, by simp, rfl⟩⟩
  intro u member
  exact Nat.le_trans (highest.reached u member) behind

theorem Highest.snoc (highest : Highest f xs y) (x : α) : Highest f (xs ++ [x]) (max y (f x)) := by
  rcases Nat.le_total (f x) y with enough | behind
  · rw [Nat.max_eq_left enough]
    exact highest.keep enough
  · rw [Nat.max_eq_right behind]
    exact highest.raise behind

theorem Highest.none (highest : Highest f [] y) : y = 0 := by
  rcases highest.attained with zero | ⟨u, member, -⟩
  · exact zero
  · cases member

theorem Highest.last (highest : Highest f xs y) (member : x ∈ xs) (rises : ∀ u ∈ xs, f u ≤ f x) : y = f x := by
  have least := highest.reached x member
  rcases highest.attained with zero | ⟨u, earlier, same⟩
  · omega
  · have := rises u earlier
    omega

theorem Highest.le_iff (highest : Highest f xs y) {b : Nat} (some : 0 < b) : b ≤ y ↔ ∃ x ∈ xs, b ≤ f x := by
  constructor
  · intro least
    rcases highest.attained with zero | ⟨x, member, same⟩
    · omega
    · exact ⟨x, member, same ▸ least⟩
  · intro ⟨x, member, least⟩
    exact Nat.le_trans least (highest.reached x member)

end RunningMax
