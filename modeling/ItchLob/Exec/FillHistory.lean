import ItchLob.Exec.FillSim

set_option autoImplicit false

namespace ItchLob.Exec

open Itch

namespace FillSimulator

def Call.quote : Call → Option Bbo
  | .bboChange bbo => some bbo
  | _ => none

def Call.printed : Call → Option Price
  | .tradeTick tick => some tick.price
  | _ => none

def quoteOf (before : List Call) : Bbo := (before.filterMap Call.quote).getLast?.getD {}
def printOf (before : List Call) : Price := (before.filterMap Call.printed).getLast?.getD 0

structure FillsAt (before : List Call) (order : ChildOrder) (price : Price) : Prop where
  shown : price ≠ 0
  market : order.type = .market → price = printOf before
  buy : order.type = .limit → order.side = Side.buy → price = (quoteOf before).askPrice ∧ price ≤ order.price
  sell : order.type = .limit → order.side ≠ Side.buy → price = (quoteOf before).bidPrice ∧ order.price ≤ price

def executed (before : List Call) : Call → List Fill
  | .fill order =>
    (({ bbo := quoteOf before, lastTradePrice := printOf before } : FillSimulator).fillPrice order).toList.map
      fun price => { ts := order.ts, side := order.side, price, shares := order.shares }
  | _ => []

def executions : List Call → List Call → List Fill
  | _, [] => []
  | before, c :: rest => executed before c ++ executions (before ++ [c]) rest

theorem fillPrice_iff (before : List Call) (order : ChildOrder) (price : Price) :
    ({ bbo := quoteOf before, lastTradePrice := printOf before } : FillSimulator).fillPrice order = some price ↔
      FillsAt before order price := by
  obtain ⟨ts, side, type, limit, shares⟩ := order
  cases type with
  | market =>
    simp only [fillPrice, if_true, Option.ite_none_right_eq_some, Option.some.injEq]
    constructor
    · rintro ⟨shown, rfl⟩
      exact ⟨shown, fun _ => rfl, fun limit => (by cases limit), fun limit => (by cases limit)⟩
    · intro fills
      have same := fills.market rfl
      exact ⟨same ▸ fills.shown, same.symm⟩
  | limit =>
    by_cases buys : side = Side.buy
    · simp only [fillPrice, reduceCtorEq, if_false, if_pos buys, Option.ite_none_right_eq_some, Option.some.injEq]
      constructor
      · rintro ⟨⟨shown, reaches⟩, rfl⟩
        exact ⟨shown, fun market => (by cases market), fun _ _ => ⟨rfl, reaches⟩, fun _ sells => absurd buys sells⟩
      · intro fills
        obtain ⟨same, reaches⟩ := fills.buy rfl buys
        exact ⟨⟨same ▸ fills.shown, same ▸ reaches⟩, same.symm⟩
    · simp only [fillPrice, reduceCtorEq, if_false, if_neg buys, Option.ite_none_right_eq_some, Option.some.injEq]
      constructor
      · rintro ⟨⟨shown, reaches⟩, rfl⟩
        exact ⟨shown, fun market => (by cases market), fun _ side => absurd side buys, fun _ _ => ⟨rfl, reaches⟩⟩
      · intro fills
        obtain ⟨same, reaches⟩ := fills.sell rfl buys
        exact ⟨⟨same ▸ fills.shown, same ▸ reaches⟩, same.symm⟩

theorem executions_append (before calls later : List Call) :
    executions before (calls ++ later) = executions before calls ++ executions (before ++ calls) later := by
  induction calls generalizing before with
  | nil => simp [executions]
  | cons first rest ih => simp [executions, ih]

theorem executions_snoc (before calls : List Call) (c : Call) :
    executions before (calls ++ [c]) = executions before calls ++ executed (before ++ calls) c := by
  rw [executions_append, executions, executions, List.append_nil]

theorem mem_executions {before calls : List Call} {f : Fill} (member : f ∈ executions before calls) :
    ∃ earlier order later, calls = earlier ++ .fill order :: later ∧
      f ∈ executed (before ++ earlier) (.fill order) := by
  induction calls generalizing before with
  | nil => cases member
  | cons c rest ih =>
    rcases List.mem_append.mp member with here | further
    · cases c with
      | fill order => exact ⟨[], order, rest, rfl, by simpa using here⟩
      | bboChange bbo => cases here
      | tradeTick tick => cases here
    · obtain ⟨earlier, order, later, rfl, made⟩ := ih further
      exact ⟨c :: earlier, order, later, rfl, by simpa using made⟩

structure Follows (s : FillSimulator) (calls : List Call) : Prop where
  bbo : s.bbo = quoteOf calls
  printed : s.lastTradePrice = printOf calls
  fills : s.fills.fills = (executions [] calls).take kMaxFills

theorem quoteOf_snoc (calls : List Call) (c : Call) : quoteOf (calls ++ [c]) = c.quote.getD (quoteOf calls) := by
  cases c <;> simp [quoteOf, Call.quote, List.filterMap_append]

theorem printOf_snoc (calls : List Call) (c : Call) : printOf (calls ++ [c]) = c.printed.getD (printOf calls) := by
  cases c <;> simp [printOf, Call.printed, List.filterMap_append]

theorem fill_answer (s : FillSimulator) (order : ChildOrder) :
    (s.fill order).1 = ((s.fillPrice order).isSome && decide (s.fills.fills.length < kMaxFills)) ∧
      (s.fill order).2.bbo = s.bbo ∧ (s.fill order).2.lastTradePrice = s.lastTradePrice ∧
      (s.fill order).2.fills.fills =
        if s.fills.fills.length < kMaxFills then
          s.fills.fills ++ (s.fillPrice order).toList.map fun price =>
            { ts := order.ts, side := order.side, price, shares := order.shares }
        else s.fills.fills := by
  have blind : ({ s with sharesAttempted := s.sharesAttempted + order.shares } : FillSimulator).fillPrice order =
      s.fillPrice order := rfl
  simp only [fill, blind]
  cases found : s.fillPrice order with
  | none => simp
  | some price => by_cases room : s.fills.fills.length < kMaxFills <;> simp [FillQueue.push, room]

section Follows

variable {s : FillSimulator} {calls : List Call}

theorem Follows.price (follows : Follows s calls) (order : ChildOrder) :
    s.fillPrice order =
      ({ bbo := quoteOf calls, lastTradePrice := printOf calls } : FillSimulator).fillPrice order := by
  rw [← follows.bbo, ← follows.printed]
  rfl

theorem Follows.room (follows : Follows s calls) :
    s.fills.fills.length < kMaxFills ↔ (executions [] calls).length < kMaxFills := by
  rw [follows.fills, List.length_take]
  omega

theorem Follows.fill (follows : Follows s calls) (order : ChildOrder) :
    Follows (s.fill order).2 (calls ++ [.fill order]) := by
  obtain ⟨-, bbo, printed, fills⟩ := s.fill_answer order
  refine ⟨?_, ?_, ?_⟩
  · rw [bbo, follows.bbo, quoteOf_snoc]
    rfl
  · rw [printed, follows.printed, printOf_snoc]
    rfl
  · rw [fills, executions_snoc, List.nil_append, executed, ← follows.price]
    split
    next room =>
      have short := follows.room.mp room
      have most : ((s.fillPrice order).toList.map fun price =>
          ({ ts := order.ts, side := order.side, price, shares := order.shares } : Fill)).length ≤ 1 := by
        rw [List.length_map]
        cases s.fillPrice order <;> simp
      rw [follows.fills, List.take_of_length_le (Nat.le_of_lt short), List.take_of_length_le]
      rw [List.length_append]
      omega
    next full =>
      have long := mt follows.room.mpr full
      rw [follows.fills, List.take_append_of_le_length (by omega)]

theorem run_follows (calls : List Call) : Follows (run calls) calls := by
  induction calls using List.reverseRecOn with
  | nil => exact ⟨rfl, rfl, rfl⟩
  | append_singleton calls c ih =>
    have next : run (calls ++ [c]) = (run calls).step c := by
      rw [run, List.foldl_append]
      rfl
    rw [next]
    have quiet (none : executed calls c = []) : executions [] (calls ++ [c]) = executions [] calls := by
      rw [executions_snoc, List.nil_append, none, List.append_nil]
    cases c with
    | bboChange bbo =>
      refine ⟨?_, ?_, ih.fills.trans (by rw [quiet rfl])⟩
      · rw [quoteOf_snoc]
        rfl
      · rw [printOf_snoc]
        exact ih.printed
    | tradeTick tick =>
      refine ⟨?_, ?_, ih.fills.trans (by rw [quiet rfl])⟩
      · rw [quoteOf_snoc]
        exact ih.bbo
      · rw [printOf_snoc]
        rfl
    | fill order => exact ih.fill order

end Follows

theorem filledNotional_ge {fills : List Fill} {low : Nat} (above : ∀ f ∈ fills, low ≤ f.price.toNat) :
    low * filledShares fills ≤ filledNotional fills := by
  induction fills with
  | nil => exact Nat.le_refl 0
  | cons f rest ih =>
    have first : low * f.shares.toNat ≤ f.price.toNat * f.shares.toNat :=
      Nat.mul_le_mul_right _ (above f List.mem_cons_self)
    have others := ih fun g member => above g (List.mem_cons_of_mem _ member)
    simp only [filledShares, filledNotional, List.map_cons, List.sum_cons, Nat.mul_add] at others ⊢
    omega

theorem filledNotional_le {fills : List Fill} {high : Nat} (below : ∀ f ∈ fills, f.price.toNat ≤ high) :
    filledNotional fills ≤ high * filledShares fills := by
  induction fills with
  | nil => exact Nat.le_refl 0
  | cons f rest ih =>
    have first : f.price.toNat * f.shares.toNat ≤ high * f.shares.toNat :=
      Nat.mul_le_mul_right _ (below f List.mem_cons_self)
    have others := ih fun g member => below g (List.mem_cons_of_mem _ member)
    simp only [filledShares, filledNotional, List.map_cons, List.sum_cons, Nat.mul_add] at others ⊢
    omega

structure Judged (calls : List Call) : Prop where
  fills : (run calls).fills.fills = (executions [] calls).take kMaxFills
  known : ∀ f ∈ (run calls).fills.fills, ∃ before order after,
    calls = before ++ .fill order :: after ∧ f.ts = order.ts ∧ f.side = order.side ∧ f.shares = order.shares ∧
      FillsAt before order f.price
  answers : ∀ before order after, calls = before ++ .fill order :: after →
    (((run before).fill order).1 = true ↔
      (∃ price, FillsAt before order price) ∧ (executions [] before).length < kMaxFills)
  kept : ∀ later, (run calls).fills.fills <+: (run (calls ++ later)).fills.fills
  average : sharesOf (attempted calls) < 2 ^ 32 → ∀ low high : Nat,
    (∀ f ∈ (run calls).fills.fills, low ≤ f.price.toNat ∧ f.price.toNat ≤ high) →
      low * (run calls).sharesFilled.toNat ≤ (run calls).notional.toNat ∧
        (run calls).notional.toNat ≤ high * (run calls).sharesFilled.toNat

end FillSimulator

open FillSimulator in
/-- No fill depends on a later call: each is at the quote or print its order's history
shows, within its limit, and stays; the average price lies between the fills' prices. -/
theorem fills_without_lookahead (calls : List FillSimulator.Call) : Judged calls := by
  have follows := run_follows calls
  refine ⟨follows.fills, fun f member => ?_, fun before order after _ => ?_, fun later => ?_,
    fun small low high within => ?_⟩
  · rw [follows.fills] at member
    obtain ⟨before, order, after, split, made⟩ := mem_executions (List.mem_of_mem_take member)
    rw [List.nil_append, executed] at made
    obtain ⟨price, found, rfl⟩ := List.mem_map.mp made
    exact ⟨before, order, after, split, rfl, rfl, rfl,
      (fillPrice_iff before order price).mp (Option.mem_toList.mp found)⟩
  · have earlier := run_follows before
    rw [((run before).fill_answer order).1, Bool.and_eq_true, decide_eq_true_iff, earlier.room, earlier.price,
      Option.isSome_iff_exists]
    simp only [fillPrice_iff]
  · rw [follows.fills, (run_follows (calls ++ later)).fills, executions_append]
    exact (List.prefix_append _ _).take _
  · have totals := (run_modular calls).exact_iff.mpr small
    rw [totals.filled, totals.notional]
    exact ⟨filledNotional_ge fun f member => (within f member).1,
      filledNotional_le fun f member => (within f member).2⟩

end ItchLob.Exec
