import ItchLob.Book.OrderBookRefinement
import ItchLob.Book.LadderRefinement
import ItchLob.Pipeline.BookBuilder

set_option autoImplicit false

namespace ItchLob.Pipeline

open Itch Book BookBuilder

/-- A price-to-window conversion that leaves room for the 64-bit sum in window_high. -/
structure Conversion where
  window : UInt32 → UInt64
  narrow : ∀ price, (window price).toNat < 2 ^ 63

namespace LadderTraits

def kFallbackBase : UInt32 := 500000
def kTickSize : UInt32 := 100
def kMaxSanePrice : UInt32 := 100000000

def base (priceHint : UInt32) : UInt32 :=
  if priceHint ≠ 0 ∧ priceHint ≤ kMaxSanePrice then priceHint else kFallbackBase

theorem construct_isSome (w : Conversion) (price : UInt32) :
    (LadderBook.construct price kTickSize w.window).isSome := by
  obtain ⟨b, built, -⟩ := LadderBook.construct_simulates kTickSize price w.narrow
  exact Option.isSome_of_eq_some built

def make (w : Conversion) (priceHint : UInt32) : LadderBook :=
  (LadderBook.construct (base priceHint) kTickSize w.window).get (construct_isSome w _)

end LadderTraits

def ladderBook (w : Conversion) : BookType LadderBook where
  make := LadderTraits.make w
  add := LadderBook.add
  execute := LadderBook.execute
  cancel := LadderBook.cancel
  remove := LadderBook.remove
  replace := LadderBook.replace

theorem orderBook_call (b : OrderBook) (c : Call) : orderBook.call b c = b.call c := by
  cases c <;> rfl

theorem ladderBook_call (w : Conversion) (b : LadderBook) (c : Call) : (ladderBook w).call b c = b.call c := by
  cases c <;> rfl

def Inserts : Call → Prop
  | .add _ _ _ _ => True
  | .replace _ _ _ _ => True
  | _ => False

section Gated

variable {α : Type} (g : Gate α) (orders : FiniteMap.Map UInt64 Order) (r : α)

theorem add_gated (ref : UInt64) (side : Side) (shares price : UInt32) :
    let free := Naive.add Gate.free ⟨orders, ()⟩ ref side shares price
    let gated := Naive.add g ⟨orders, r⟩ ref side shares price
    (free.1 = gated.1 ∧ free.2.orders = gated.2.orders) ∨ (free.1 = true ∧ gated.1 = false) := by
  simp only [Naive.add, Gate.free, if_true]
  cases orders.lookup ref with
  | some o => cases (g.admits r price.toNat).1 <;> exact .inl ⟨rfl, rfl⟩
  | none =>
    cases (g.admits r price.toNat).1 with
    | true => exact .inl ⟨rfl, rfl⟩
    | false => exact .inr ⟨rfl, rfl⟩

theorem call_gated (c : Call) :
    let free := Naive.call Gate.free ⟨orders, ()⟩ c
    let gated := Naive.call g ⟨orders, r⟩ c
    (free.1 = gated.1 ∧ free.2.orders = gated.2.orders) ∨
      (Inserts c ∧ free.1 = true ∧ gated.1 = false) := by
  cases c with
  | add ref side shares price =>
    exact (add_gated g orders r ref side shares price).imp_right fun differ => ⟨trivial, differ⟩
  | execute ref shares | cancel ref shares =>
    left
    simp only [Naive.call, Naive.reduce]
    cases orders.lookup ref with
    | none => exact ⟨rfl, rfl⟩
    | some o => constructor <;> dsimp only <;> split <;> rfl
  | remove ref =>
    left
    simp only [Naive.call, Naive.remove]
    cases orders.lookup ref <;> exact ⟨rfl, rfl⟩
  | replace orig next shares price =>
    simp only [Naive.call, Naive.replace]
    cases orders.lookup orig with
    | none => exact .inl ⟨rfl, rfl⟩
    | some o =>
      exact (add_gated g (orders.erase orig) r next o.side shares price).imp_right
        fun differ => ⟨trivial, differ⟩

end Gated

section Agree

variable (w : Conversion)

def Agree (n : Nat) (reference : OrderBook) (candidate : LadderBook) : Prop :=
  ∃ orders range, OrderBook.Simulates n reference ⟨orders, ()⟩ ∧
    LadderBook.Simulates LadderTraits.kTickSize w.window n candidate ⟨orders, range⟩

variable {w} {n : Nat} {reference : OrderBook} {candidate : LadderBook}

theorem kTickSize_pos : 0 < LadderTraits.kTickSize.toNat := by decide

theorem Agree.view (agree : Agree w n reference candidate) : reference.view = candidate.view := by
  obtain ⟨orders, range, left, right⟩ := agree
  rw [OrderBook.simulates_view left, LadderBook.valid_view kTickSize_pos right.orders right.valid]

theorem Agree.call (agree : Agree w n reference candidate) (few : n + 1 < 2 ^ 32) (c : Call) :
    ((reference.call c).1 = (candidate.call c).1 ∧
        Agree w (n + 1) (reference.call c).2 (candidate.call c).2) ∨
      (Inserts c ∧ (reference.call c).1 = true ∧ (candidate.call c).1 = false) := by
  obtain ⟨orders, range, left, right⟩ := agree
  obtain ⟨leftAnswer, leftNext⟩ := OrderBook.call_simulates few left c
  obtain ⟨rightAnswer, rightNext⟩ := LadderBook.call_simulates kTickSize_pos w.narrow few right c
  rw [leftAnswer, rightAnswer]
  have compared := call_gated (Gate.ladder LadderTraits.kTickSize.toNat (LadderBook.exactWindow w.window))
    orders range c
  revert rightNext compared
  generalize Naive.call (Gate.ladder _ _) ⟨orders, range⟩ c = gated
  rintro rightNext (⟨answers, maps⟩ | differ)
  · refine .inl ⟨answers, gated.2.orders, gated.2.gate, ?_, rightNext⟩
    rw [← maps]
    exact leftNext
  · exact .inr differ

theorem Agree.weaken (agree : Agree w n reference candidate) : Agree w (n + 1) reference candidate := by
  obtain ⟨orders, range, left, right⟩ := agree
  exact ⟨orders, range, left.weaken, right.weaken⟩

theorem agree_fresh (w : Conversion) (n : Nat) (priceHint : UInt32) :
    Agree w n (orderBook.make priceHint) ((ladderBook w).make priceHint) := by
  obtain ⟨b, built, initial⟩ :=
    LadderBook.construct_simulates LadderTraits.kTickSize (LadderTraits.base priceHint) w.narrow
  have made : (ladderBook w).make priceHint = b := Option.get_of_eq_some _ built
  rw [made]
  exact ⟨∅, _, OrderBook.init_simulates.mono (Nat.zero_le n), initial.mono (Nat.zero_le n)⟩

end Agree

section Lockstep

variable (w : Conversion) (locate : UInt16)

def Lockstep (seen : List Event) : Prop :=
  ∀ before e after, seen = before ++ e :: after → addressed locate e →
    (Counted orderBook (build orderBook before) e ↔ Counted (ladderBook w) (build (ladderBook w) before) e)

def Paired (n : Nat) : Option OrderBook → Option LadderBook → Prop
  | none, none => True
  | some reference, some candidate => Agree w n reference candidate
  | _, _ => False

variable {w locate}

theorem Paired.view {n : Nat} {reference : Option OrderBook} {candidate : Option LadderBook}
    (paired : Paired w n reference candidate) :
    reference.map OrderBook.view = candidate.map LadderBook.view := by
  cases reference with
  | none =>
    cases candidate with
    | none => rfl
    | some _ => exact paired.elim
  | some r =>
    cases candidate with
    | none => exact paired.elim
    | some c => exact congrArg some (Agree.view paired)

theorem Paired.weaken {n : Nat} {reference : Option OrderBook} {candidate : Option LadderBook}
    (paired : Paired w n reference candidate) : Paired w (n + 1) reference candidate := by
  cases reference <;> cases candidate
  · trivial
  · exact paired.elim
  · exact paired.elim
  · exact Agree.weaken paired

theorem Paired.getD {n : Nat} {reference : Option OrderBook} {candidate : Option LadderBook}
    (paired : Paired w n reference candidate) (priceHint : UInt32) :
    Agree w n (reference.getD (orderBook.make priceHint)) (candidate.getD ((ladderBook w).make priceHint)) := by
  cases reference <;> cases candidate
  · exact agree_fresh w n priceHint
  · exact paired.elim
  · exact paired.elim
  · exact paired

theorem paired_step {n : Nat} {e : Event} {h : BookBuilder OrderBook} {h' : BookBuilder LadderBook}
    (paired : Paired w n (h.books.find locate) (h'.books.find locate)) (few : n + 1 < 2 ^ 32)
    (here : addressed locate e) :
    ((Counted orderBook h e ↔ Counted (ladderBook w) h' e) ∧
      Paired w (n + 1) ((handler orderBook e h).books.find locate)
        ((handler (ladderBook w) e h').books.find locate)) ∨
      (∃ r, request e = some r ∧ Inserts r.call ∧ ¬ Counted orderBook h e ∧ Counted (ladderBook w) h' e) := by
  obtain ⟨r, asks, rfl⟩ := Option.map_eq_some_iff.mp here
  have agree := paired.getD r.priceHint
  simp only [request_counted _ asks, request_find _ asks, if_true]
  rw [orderBook_call, ladderBook_call]
  rcases agree.call few r.call with ⟨answers, next⟩ | ⟨inserts, accepted, refused⟩
  · exact .inl ⟨by rw [answers], next⟩
  · exact .inr ⟨r, asks, inserts, by simp [accepted], refused⟩

theorem lockstep_paired (seen : List Event) (short : seen.length < 2 ^ 32)
    (lockstep : Lockstep w locate seen) :
    Paired w seen.length ((build orderBook seen).books.find locate)
      ((build (ladderBook w) seen).books.find locate) := by
  induction seen using List.reverseRecOn with
  | nil => trivial
  | append_singleton seen e ih =>
    simp only [List.length_append, List.length_singleton] at short ⊢
    have earlier : Lockstep w locate seen := fun before e' after split there =>
      lockstep before e' (after ++ [e]) (by rw [split]; simp) there
    have paired := ih (by omega) earlier
    rw [build_append, build_append]
    by_cases here : addressed locate e
    · rcases paired_step paired short here with ⟨-, next⟩ | ⟨r, asks, inserts, accepted, refused⟩
      · exact next
      · exact absurd ((lockstep seen e [] rfl here).mpr refused) accepted
    · rw [unaddressed_find _ here, unaddressed_find _ here]
      exact paired.weaken

/-- Two production books fed the same bytes: at every locate they read the same
for as long as they agree on which messages to count, and the first disagreement
is an insert that only the ladder refused. -/
theorem differential_law (w : Conversion) (data : List UInt8) (short : (events data).length < 2 ^ 32) :
    (parseStream (handler orderBook) data {}).1 = build orderBook (events data) ∧
    (parseStream (handler (ladderBook w)) data {}).1 = build (ladderBook w) (events data) ∧
    ∀ locate seen rest, events data = seen ++ rest → Lockstep w locate seen →
      (((build orderBook seen).books.find locate).map OrderBook.view =
        ((build (ladderBook w) seen).books.find locate).map LadderBook.view) ∧
      ∀ e later, rest = e :: later → addressed locate e →
        ¬ (Counted orderBook (build orderBook seen) e ↔
          Counted (ladderBook w) (build (ladderBook w) seen) e) →
        (∃ r, request e = some r ∧ Inserts r.call) ∧
          ¬ Counted orderBook (build orderBook seen) e ∧
          Counted (ladderBook w) (build (ladderBook w) seen) e := by
  refine ⟨by rw [parseStream_build], by rw [parseStream_build], ?_⟩
  intro locate seen rest split lockstep
  have bound : seen.length + rest.length < 2 ^ 32 := by
    rw [← List.length_append, ← split]
    exact short
  have paired := lockstep_paired seen (by omega) lockstep
  refine ⟨paired.view, ?_⟩
  rintro e later rfl here differ
  simp only [List.length_cons] at bound
  rcases paired_step paired (by omega) here with ⟨same, -⟩ | ⟨r, asks, inserts, accepted, refused⟩
  · exact absurd same differ
  · exact ⟨⟨r, asks, inserts⟩, accepted, refused⟩

-- An add at locate 1 and price 150, off the ladder's tick grid of 100.
theorem differential_law_off_grid :
    let w : Conversion := ⟨fun _ => 0, fun _ => by decide⟩
    let data : List UInt8 :=
      [0, 36, 65, 0, 1, 0, 0, 0, 0, 0, 0, 0, 0, 0, 0, 0, 0, 0, 0, 0, 7, 66, 0, 0, 0, 10,
        32, 32, 32, 32, 32, 32, 32, 32, 0, 0, 0, 150]
    (events data).length < 2 ^ 32 ∧ ∃ e, events data = [e] ∧ addressed 1 e ∧
      (∃ r, request e = some r ∧ Inserts r.call) ∧
      ¬ Counted orderBook (build orderBook []) e ∧ Counted (ladderBook w) (build (ladderBook w) []) e := by
  intro w data
  have short : (events data).length < 2 ^ 32 := by decide
  let e : Event := .add ⟨⟨1, 0⟩, 7, Side.buy, 10, [0, 0, 0, 0, 0, 0, 0, 0, 0], 150⟩
  have only : events data = [] ++ [e] := by decide
  have here : addressed 1 e := rfl
  have differ : ¬ (Counted orderBook (build orderBook []) e ↔
      Counted (ladderBook w) (build (ladderBook w) []) e) := by
    unfold Counted
    decide
  have start : Lockstep w 1 [] := fun before e' after split => by simp at split
  have law := ((differential_law w data short).2.2 1 [] [e] only start).2 e [] rfl here differ
  exact ⟨short, e, only, here, law⟩

end Lockstep

end ItchLob.Pipeline
