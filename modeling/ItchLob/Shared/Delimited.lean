import Mathlib.Data.List.Basic

set_option autoImplicit false

namespace Delimited

-- Delimited framing: every piece of a stream but the last one ends in a delimiter.

section Pieces

variable {α : Type} [BEq α]

def terminated (d : α) (s : List α) : List (List α) := (s.splitOn d).dropLast

def unfinished (d : α) (s : List α) : List α := (s.splitOn d).getLastD []

theorem splitOn_pieces (d : α) (s : List α) : s.splitOn d = terminated d s ++ [unfinished d s] := by
  have last : unfinished d s = (s.splitOn d).getLast (List.splitOn_ne_nil d s) := by
    rw [unfinished, List.getLastD_eq_getLast?, List.getLast?_eq_some_getLast (List.splitOn_ne_nil d s),
      Option.getD_some]
  rw [terminated, last, List.dropLast_append_getLast]

end Pieces

variable {α : Type} [BEq α] [LawfulBEq α] {d : α} {line later : List α}

@[elab_as_elim] theorem pieces_induction {P : List α → Prop} (plain : ∀ s, d ∉ s → P s)
    (first : ∀ line later, d ∉ line → P later → P (line ++ d :: later)) (s : List α) : P s := by
  by_cases inside : d ∈ s
  · obtain ⟨line, later, split, free⟩ := List.eq_append_cons_of_mem inside
    have shorter : later.length < s.length := by simp [split]; omega
    exact split ▸ first line later free (pieces_induction plain first later)
  · exact plain s inside
termination_by s.length

theorem terminated_plain (plain : d ∉ line) : terminated d line = [] := by
  rw [terminated, List.splitOn_eq_singleton plain, List.dropLast_singleton]

theorem unfinished_plain (plain : d ∉ line) : unfinished d line = line := by
  rw [unfinished, List.splitOn_eq_singleton plain, List.getLastD_cons, List.getLastD_nil]

theorem splitOn_line (plain : d ∉ line) :
    (line ++ d :: later).splitOn d = line :: terminated d later ++ [unfinished d later] := by
  rw [List.splitOn_append_cons_self_of_not_mem plain, splitOn_pieces, List.cons_append]

theorem terminated_line (plain : d ∉ line) : terminated d (line ++ d :: later) = line :: terminated d later := by
  rw [terminated, splitOn_line plain, List.dropLast_concat]

theorem unfinished_line (plain : d ∉ line) : unfinished d (line ++ d :: later) = unfinished d later := by
  rw [unfinished, splitOn_line plain, List.getLastD_concat]

theorem unfinished_free (s : List α) : d ∉ unfinished d s := by
  induction s using pieces_induction (d := d) with
  | plain s free => rwa [unfinished_plain free]
  | first line later free ih => rwa [unfinished_line free]

theorem splitOn_append (s t : List α) :
    (s ++ t).splitOn d = terminated d s ++ (unfinished d s ++ t).splitOn d := by
  induction s using pieces_induction (d := d) with
  | plain s free => rw [terminated_plain free, unfinished_plain free, List.nil_append]
  | first line later free ih =>
    rw [List.append_assoc, List.cons_append, List.splitOn_append_cons_self_of_not_mem free, ih,
      terminated_line free, unfinished_line free, List.cons_append]

theorem terminated_append (s t : List α) :
    terminated d (s ++ t) = terminated d s ++ terminated d (unfinished d s ++ t) := by
  have split : (s ++ t).splitOn d = terminated d s ++ (unfinished d s ++ t).splitOn d := splitOn_append s t
  rw [terminated, split, List.dropLast_append_of_ne_nil (List.splitOn_ne_nil d _)]
  rfl

theorem unfinished_append (s t : List α) : unfinished d (s ++ t) = unfinished d (unfinished d s ++ t) := by
  have split : (s ++ t).splitOn d = terminated d s ++ (unfinished d s ++ t).splitOn d := splitOn_append s t
  rw [unfinished, split, splitOn_pieces d (unfinished d s ++ t), ← List.append_assoc, List.getLastD_concat]

theorem unfinished_begins (s t : List α) : ∃ piece ∈ (s ++ t).splitOn d, unfinished d s <+: piece := by
  have free : d ∉ unfinished d s := unfinished_free s
  rw [splitOn_append]
  induction t using pieces_induction (d := d) with
  | plain t plain =>
    have single : d ∉ unfinished d s ++ t := by simp [free, plain]
    refine ⟨unfinished d s ++ t, ?_, List.prefix_append _ _⟩
    rw [List.splitOn_eq_singleton single]
    simp
  | first line later plain ih =>
    have single : d ∉ unfinished d s ++ line := by simp [free, plain]
    refine ⟨unfinished d s ++ line, ?_, List.prefix_append _ _⟩
    rw [← List.append_assoc, List.splitOn_append_cons_self_of_not_mem single]
    simp

theorem terminated_mono {s t : List α} (begins : s <+: t) : terminated d s <+: terminated d t := by
  obtain ⟨more, rfl⟩ := begins
  rw [terminated_append]
  exact List.prefix_append _ _

theorem splitOn_lines {lines : List (List α)} (plain : ∀ line ∈ lines, d ∉ line) :
    (lines.flatMap fun line => line ++ [d]).splitOn d = lines ++ [[]] := by
  induction lines with
  | nil => rfl
  | cons line later ih =>
    rw [List.flatMap_cons, List.append_assoc, List.singleton_append,
      List.splitOn_append_cons_self_of_not_mem (plain line List.mem_cons_self),
      ih fun l member => plain l (List.mem_cons_of_mem _ member), List.cons_append]

theorem terminated_lines {lines : List (List α)} (plain : ∀ line ∈ lines, d ∉ line) :
    terminated d (lines.flatMap fun line => line ++ [d]) = lines := by
  rw [terminated, splitOn_lines plain, List.dropLast_concat]

theorem unfinished_lines {lines : List (List α)} (plain : ∀ line ∈ lines, d ∉ line) :
    unfinished d (lines.flatMap fun line => line ++ [d]) = [] := by
  rw [unfinished, splitOn_lines plain, List.getLastD_concat]

end Delimited
