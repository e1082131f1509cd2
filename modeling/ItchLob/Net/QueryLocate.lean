import ItchLob.Net.QueryConsistency

set_option autoImplicit false

namespace ItchLob.Net

open Pipeline QueryWire

def snapshotAt (store : SnapshotStore) (locate : UInt64) : Option LocateSnapshot :=
  store.data.find? fun entry => entry.locate.toNat = locate.toNat

def AnswersFor (store : SnapshotStore) (locate : UInt64) (reply : Reply) : Prop :=
  match snapshotAt store locate with
  | some q => ∃ snapshotVersion unknownRefs, reply = .quote q snapshotVersion unknownRefs
  | none => ∃ echoed, reply = .errorLocate "unknown locate" echoed

section Narrowing

variable (store : SnapshotStore) (locate : UInt64)

theorem find_narrowed (small : locate.toNat < 65536) : store.find locate.toUInt16 = snapshotAt store locate := by
  rw [SnapshotStore.find, snapshotAt]
  congr 1
  funext entry
  rw [decide_eq_decide, ← UInt16.toNat_inj, UInt64.toNat_toUInt16, Nat.mod_eq_of_lt small]

theorem snapshotAt_large (large : ¬locate.toNat < 65536) : snapshotAt store locate = none := by
  rw [snapshotAt, List.find?_eq_none]
  intro entry _ same
  have := entry.locate.toNat_lt
  rw [decide_eq_true_eq] at same
  omega

end Narrowing

section Quote

variable (lists : ListOrder) (quotes : QuoteOrder) (line : Text) (locate : UInt64)
  (cmd : extractStringField line (text "cmd") = some (text "quote"))
  (field : extractUintField line (text "locate") = some locate)
include cmd field

theorem requestOf_quote : requestOf line = .quote locate.toUInt16 := by
  have other : text "quote" ≠ text "list" := by decide
  simp only [requestOf, cmd, field, if_neg other, if_true]

theorem quote_answer (past : List Publish) (gaps : List (List Publish)) :
    (∃ q v u, (published (past ++ gaps.headD [])).find locate.toUInt16 = some q ∧
        (handleLine lists quotes line).run past gaps = .quote q v u) ∨
      (published (past ++ gaps.headD [])).find locate.toUInt16 = none ∧
        (handleLine lists quotes line).run past gaps = .errorLocate "unknown locate" locate.toUInt16 := by
  rw [handleLine_request, requestOf_quote line locate cmd field]
  simp only [Reader.run]
  cases found : (published (past ++ gaps.headD [])).find locate.toUInt16 with
  | none => exact .inr ⟨rfl, rfl⟩
  | some q =>
    refine .inl ⟨q, ?_⟩
    cases quotes <;> exact ⟨_, _, rfl, rfl⟩

/-- Whatever is published and whenever, a quote is about the locate asked exactly
when that locate fits the 16-bit key, or nothing is published under what is left of it. -/
theorem quote_answers_iff (past : List Publish) (gaps : List (List Publish)) :
    AnswersFor (published (past ++ gaps.headD [])) locate ((handleLine lists quotes line).run past gaps) ↔
      locate.toNat < 65536 ∨ (published (past ++ gaps.headD [])).find locate.toUInt16 = none := by
  have answer := quote_answer lists quotes line locate cmd field past gaps
  by_cases small : locate.toNat < 65536
  · refine iff_of_true ?_ (.inl small)
    rw [AnswersFor, ← find_narrowed _ _ small]
    rcases answer with ⟨q, v, u, found, reply⟩ | ⟨missing, reply⟩
    · rw [found]
      exact ⟨v, u, reply⟩
    · rw [missing]
      exact ⟨_, reply⟩
  · rw [AnswersFor, snapshotAt_large _ _ small]
    rcases answer with ⟨q, v, u, found, reply⟩ | ⟨missing, reply⟩
    · rw [reply, found]
      simp [small]
    · rw [reply, missing]
      simp

end Quote

theorem quote_answers_small :
    AnswersFor (published [firstSnapshot]) 7
      ((handleLine .dataVersionRefs .versionRefs quoteLine).run [firstSnapshot] []) :=
  (quote_answers_iff .dataVersionRefs .versionRefs quoteLine 7 (by decide) (by decide) [firstSnapshot] []).mpr
    (.inl (by decide))

-- 65543 is 7 modulo 65536.
def wideLine : Text := text "\x7b\"cmd\":\"quote\",\"locate\":65543\x7d"

theorem quote_of_another_symbol :
    ¬∀ (line : Text) (locate : UInt64), extractStringField line (text "cmd") = some (text "quote") →
      extractUintField line (text "locate") = some locate →
      ∀ history, AnswersFor (published history) locate
        ((handleLine .dataVersionRefs .versionRefs line).run history []) := by
  intro always
  obtain ⟨echoed, reply⟩ := always wideLine 65543 (by decide) (by decide) [firstSnapshot]
  have asked : requestOf wideLine = .quote 7 := by decide
  rw [handleLine_request, asked] at reply
  cases reply

end ItchLob.Net
