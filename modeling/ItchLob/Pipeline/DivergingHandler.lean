import ItchLob.Pipeline.Differential
import ItchLob.Pipeline.ReplayReport

set_option autoImplicit false

namespace ItchLob.Pipeline

open Itch Book BookBuilder

structure DivergingHandler where
  reference : BookBuilder OrderBook := {}
  candidate : BookBuilder LadderBook := {}
  policyDiverged : List Bool := []
  divergenceChecks : UInt64 := 0
  policyOnlySkips : UInt64 := 0

namespace DivergingHandler

def isPolicyDiverged (h : DivergingHandler) (locate : UInt16) : Bool :=
  h.policyDiverged.getD locate.toNat false

def markPolicyDiverged (h : DivergingHandler) (locate : UInt16) : DivergingHandler :=
  let marks :=
    if h.policyDiverged.length ≤ locate.toNat then
      h.policyDiverged ++ List.replicate (locate.toNat + 1 - h.policyDiverged.length) false
    else h.policyDiverged
  { h with policyDiverged := marks.set locate.toNat true }

def quotesAgree : Option Quote → Option Quote → Bool
  | none, none => true
  | some r, some c => r.price = c.price && r.shares = c.shares
  | _, _ => false

def statesAgree (ref : OrderBook) (cand : LadderBook) : Bool :=
  quotesAgree ref.bestBid cand.bestBid && quotesAgree ref.bestAsk cand.bestAsk &&
    ref.openOrders = cand.openOrders && ref.bidLevels = cand.bidLevels && ref.askLevels = cand.askLevels

-- None is std::abort.
def diffLocate (h : DivergingHandler) (locate : UInt16) : Option DivergingHandler :=
  match h.reference.books.find locate, h.candidate.books.find locate with
  | some ref, some cand =>
    if statesAgree ref cand then some { h with divergenceChecks := h.divergenceChecks + 1 } else none
  | _, _ => some h

-- The closure is generic in the book; here are both its instances.
def applyAndDiff (h : DivergingHandler) (locate : UInt16)
    (onReference : BookBuilder OrderBook → BookBuilder OrderBook)
    (onCandidate : BookBuilder LadderBook → BookBuilder LadderBook) : Option DivergingHandler :=
  let reference := onReference h.reference
  let candidate := onCandidate h.candidate
  let refApplied : Bool := reference.unknownRefs = h.reference.unknownRefs
  let candApplied : Bool := candidate.unknownRefs = h.candidate.unknownRefs
  let h := { h with reference, candidate }
  if h.isPolicyDiverged locate then some h
  else if refApplied ≠ candApplied then
    some { h.markPolicyDiverged locate with policyOnlySkips := h.policyOnlySkips + 1 }
  else if !refApplied then some h
  else h.diffLocate locate

section Callbacks

variable (w : Conversion)

def onAdd (h : DivergingHandler) (m : AddOrder) : Option DivergingHandler :=
  h.applyAndDiff m.hdr.locate (fun b => b.onAdd orderBook m) fun b => b.onAdd (ladderBook w) m

def onExecute (h : DivergingHandler) (m : OrderExecuted) : Option DivergingHandler :=
  h.applyAndDiff m.hdr.locate (fun b => b.onExecute orderBook m) fun b => b.onExecute (ladderBook w) m

def onExecutePrice (h : DivergingHandler) (m : OrderExecutedPrice) : Option DivergingHandler :=
  h.applyAndDiff m.hdr.locate (fun b => b.onExecutePrice orderBook m) fun b => b.onExecutePrice (ladderBook w) m

def onCancel (h : DivergingHandler) (m : OrderCancel) : Option DivergingHandler :=
  h.applyAndDiff m.hdr.locate (fun b => b.onCancel orderBook m) fun b => b.onCancel (ladderBook w) m

def onDelete (h : DivergingHandler) (m : OrderDelete) : Option DivergingHandler :=
  h.applyAndDiff m.hdr.locate (fun b => b.onDelete orderBook m) fun b => b.onDelete (ladderBook w) m

def onReplace (h : DivergingHandler) (m : OrderReplace) : Option DivergingHandler :=
  h.applyAndDiff m.hdr.locate (fun b => b.onReplace orderBook m) fun b => b.onReplace (ladderBook w) m

def onOther (h : DivergingHandler) (type : UInt8) (len : Nat) : DivergingHandler :=
  { h with reference := h.reference.onOther type len, candidate := h.candidate.onOther type len }

-- Nothing runs after the abort.
def handler : Handler (Option DivergingHandler)
  | .add m, h => h.bind fun h => h.onAdd w m
  | .execute m, h => h.bind fun h => h.onExecute w m
  | .executePrice m, h => h.bind fun h => h.onExecutePrice w m
  | .cancel m, h => h.bind fun h => h.onCancel w m
  | .delete m, h => h.bind fun h => h.onDelete w m
  | .replace m, h => h.bind fun h => h.onReplace w m
  | .other type len, h => h.map fun h => h.onOther type len

def fuzzOneInput (data : List UInt8) : Option DivergingHandler := (parseStream (handler w) data (some {})).1

theorem handler_applies {e : Event} {r : Request} (asks : request e = some r) (h : DivergingHandler) :
    handler w e (some h) =
      h.applyAndDiff r.locate (BookBuilder.handler orderBook e) (BookBuilder.handler (ladderBook w) e) := by
  cases e with
  | other type len => simp [request] at asks
  | _ m =>
    simp only [request, Option.some.injEq] at asks
    subst asks
    rfl

theorem handler_passes {e : Event} (silent : request e = none) (h : DivergingHandler) :
    handler w e (some h) =
      some { h with
        reference := BookBuilder.handler orderBook e h.reference
        candidate := BookBuilder.handler (ladderBook w) e h.candidate } := by
  cases e with
  | other type len => rfl
  | _ m => simp [request] at silent

end Callbacks

section Marks

variable (h : DivergingHandler) (locate : UInt16)

theorem isPolicyDiverged_mark (other : UInt16) :
    (h.markPolicyDiverged locate).isPolicyDiverged other = (locate = other || h.isPolicyDiverged other) := by
  have grown (marks : List Bool) (room : locate.toNat < marks.length) (i : Nat) :
      (marks.set locate.toNat true).getD i false = (locate.toNat = i || marks.getD i false) := by
    by_cases here : locate.toNat = i
    · subst here
      simp [List.getD_eq_getElem?_getD, room]
    · simp [List.getD_eq_getElem?_getD, here]
  simp only [isPolicyDiverged, markPolicyDiverged, ← UInt16.toNat_inj]
  split
  next short =>
    rw [grown _ (by rw [List.length_append, List.length_replicate]; omega)]
    congr 1
    simp only [List.getD_eq_getElem?_getD, List.getElem?_append, List.getElem?_replicate]
    by_cases inside : other.toNat < h.policyDiverged.length
    · rw [if_pos inside]
    · rw [if_neg inside, List.getElem?_eq_none (Nat.le_of_not_lt inside)]
      split <;> rfl
  next room => exact grown _ (Nat.lt_of_not_le room) other.toNat

theorem quotesAgree_refl (q : Option Quote) : quotesAgree q q = true := by
  cases q <;> simp [quotesAgree]

theorem quote_exact {p q : Option Quote} (same : p.map Quote.exact = q.map Quote.exact) : p = q := by
  refine Option.map_injective (fun a b shown => ?_) same
  obtain ⟨price, shares⟩ := Prod.mk.inj shown
  exact congrArg₂ Quote.mk (UInt32.toNat_inj.mp price) (UInt64.toNat_inj.mp shares)

theorem statesAgree_view {ref : OrderBook} {cand : LadderBook} (same : ref.view = cand.view) :
    statesAgree ref cand = true := by
  simp only [OrderBook.view, LadderBook.view, View.mk.injEq] at same
  obtain ⟨bid, ask, orders, bids, asks⟩ := same
  simp only [statesAgree, quote_exact bid, quote_exact ask, quotesAgree_refl, orders, bids, asks, decide_true,
    Bool.and_self]

end Marks

section Runs

variable (w : Conversion)

theorem lockstep_snoc (locate : UInt16) (seen : List Event) (e : Event) :
    Lockstep w locate (seen ++ [e]) ↔ Lockstep w locate seen ∧ (addressed locate e →
      (Counted orderBook (build orderBook seen) e ↔ Counted (ladderBook w) (build (ladderBook w) seen) e)) := by
  constructor
  · intro lockstep
    refine ⟨fun before e' after split there => ?_, fun here => lockstep seen e [] rfl here⟩
    exact lockstep before e' (after ++ [e]) (by rw [split]; simp) there
  · rintro ⟨earlier, last⟩ before e' after split there
    rcases List.eq_nil_or_concat after with rfl | ⟨init, d, rfl⟩
    · obtain ⟨rfl, same⟩ := List.append_inj' split rfl
      cases same
      exact last there
    · rw [List.concat_eq_append, ← List.cons_append, ← List.append_assoc] at split
      obtain ⟨rfl, -⟩ := List.append_inj' split rfl
      exact earlier before e' init rfl there

theorem lockstep_unaddressed {locate : UInt16} {e : Event} (apart : ¬ addressed locate e) (seen : List Event) :
    Lockstep w locate (seen ++ [e]) ↔ Lockstep w locate seen := by
  rw [lockstep_snoc]
  exact and_iff_left fun here => absurd here apart

def divergent (seen : List Event) : Set UInt16 := {locate | ¬ Lockstep w locate seen}

theorem locates_finite (locates : Set UInt16) : locates.Finite := by
  have finite : Finite UInt16 := Finite.of_injective UInt16.toFin fun _ _ => UInt16.toFin_inj.mp
  exact locates.toFinite

structure Checked (seen : List Event) (h : DivergingHandler) : Prop where
  reference : h.reference = build orderBook seen
  candidate : h.candidate = build (ladderBook w) seen
  marks : ∀ locate, h.isPolicyDiverged locate = true ↔ locate ∈ divergent w seen
  skips : h.policyOnlySkips.toNat = (divergent w seen).ncard
  few : (divergent w seen).ncard ≤ seen.length

variable {w} {seen : List Event} {h : DivergingHandler} {e : Event}

theorem divergent_unaddressed (silent : request e = none) : divergent w (seen ++ [e]) = divergent w seen := by
  ext locate
  have apart : ¬ addressed locate e := by simp [addressed, silent]
  exact not_congr (lockstep_unaddressed w apart seen)

variable (w seen) in
theorem divergent_addressed {r : Request} (asks : request e = some r) (locate : UInt16) :
    locate ∈ divergent w (seen ++ [e]) ↔ locate ∈ divergent w seen ∨ (locate = r.locate ∧
      ¬ (Counted orderBook (build orderBook seen) e ↔ Counted (ladderBook w) (build (ladderBook w) seen) e)) := by
  have here : addressed locate e ↔ locate = r.locate := by
    rw [addressed, asks, Option.map_some, Option.some.injEq, eq_comm]
  change ¬ Lockstep w locate (seen ++ [e]) ↔ ¬ Lockstep w locate seen ∨ _
  rw [lockstep_snoc, here]
  tauto

theorem Checked.kept (checked : Checked w seen h) {h' : DivergingHandler}
    (same : divergent w (seen ++ [e]) = divergent w seen)
    (reference : h'.reference = BookBuilder.handler orderBook e h.reference)
    (candidate : h'.candidate = BookBuilder.handler (ladderBook w) e h.candidate)
    (marks : h'.policyDiverged = h.policyDiverged) (skips : h'.policyOnlySkips = h.policyOnlySkips) :
    Checked w (seen ++ [e]) h' where
  reference := by rw [build_append, reference, checked.reference]
  candidate := by rw [build_append, candidate, checked.candidate]
  marks locate := by
    rw [same, isPolicyDiverged, marks]
    exact checked.marks locate
  skips := by rw [same, skips, checked.skips]
  few := by
    rw [same, List.length_append]
    exact Nat.le_add_right_of_le checked.few

theorem Checked.passes (checked : Checked w seen h) (silent : request e = none) :
    ∃ h', handler w e (some h) = some h' ∧ Checked w (seen ++ [e]) h' :=
  ⟨_, handler_passes w silent h, checked.kept (divergent_unaddressed silent) rfl rfl rfl rfl⟩

theorem Checked.marked (checked : Checked w seen h) (short : seen.length + 1 < 2 ^ 32) {r : Request}
    (asks : request e = some r) (fresh : r.locate ∉ divergent w seen) {reference : BookBuilder OrderBook}
    {candidate : BookBuilder LadderBook} (left : reference = build orderBook (seen ++ [e]))
    (right : candidate = build (ladderBook w) (seen ++ [e]))
    (differ : ¬ (Counted orderBook (build orderBook seen) e ↔
      Counted (ladderBook w) (build (ladderBook w) seen) e)) :
    Checked w (seen ++ [e])
      { ({ h with reference, candidate } : DivergingHandler).markPolicyDiverged r.locate with
        policyOnlySkips := h.policyOnlySkips + 1 } := by
  have grown : divergent w (seen ++ [e]) = insert r.locate (divergent w seen) := by
    ext locate
    rw [divergent_addressed w seen asks, Set.mem_insert_iff, or_comm]
    exact or_congr_left (and_iff_left differ)
  have size : (divergent w (seen ++ [e])).ncard = (divergent w seen).ncard + 1 := by
    rw [grown, Set.ncard_insert_of_notMem fresh (locates_finite _)]
  have few := checked.few
  refine ⟨left, right, fun locate => ?_, ?_, ?_⟩
  · change (({ h with reference, candidate } : DivergingHandler).markPolicyDiverged
      r.locate).isPolicyDiverged locate = true ↔ _
    rw [isPolicyDiverged_mark, grown, Set.mem_insert_iff, Bool.or_eq_true, decide_eq_true_eq, ← checked.marks,
      eq_comm]
    rfl
  · change (h.policyOnlySkips + 1).toNat = _
    rw [size, UInt64.toNat_add, checked.skips]
    exact Nat.mod_eq_of_lt (by change _ + 1 < 2 ^ 64; omega)
  · rw [size, List.length_append, List.length_singleton]
    omega

theorem Checked.applies (checked : Checked w seen h) (short : seen.length + 1 < 2 ^ 32) {r : Request}
    (asks : request e = some r) : ∃ h', handler w e (some h) = some h' ∧ Checked w (seen ++ [e]) h' := by
  have here : addressed r.locate e := by rw [addressed, asks, Option.map_some]
  have member := divergent_addressed w seen asks
  have mark := checked.marks r.locate
  have reference : BookBuilder.handler orderBook e h.reference = build orderBook (seen ++ [e]) := by
    rw [build_append, checked.reference]
  have candidate : BookBuilder.handler (ladderBook w) e h.candidate = build (ladderBook w) (seen ++ [e]) := by
    rw [build_append, checked.candidate]
  have refApplied : (BookBuilder.handler orderBook e h.reference).unknownRefs = h.reference.unknownRefs ↔
      ¬ Counted orderBook (build orderBook seen) e := by rw [Counted, ← checked.reference, not_not]
  have candApplied : (BookBuilder.handler (ladderBook w) e h.candidate).unknownRefs = h.candidate.unknownRefs ↔
      ¬ Counted (ladderBook w) (build (ladderBook w) seen) e := by rw [Counted, ← checked.candidate, not_not]
  rw [handler_applies w asks, applyAndDiff]
  simp only
  split
  next already =>
    -- A locate that has diverged is not compared again, and does not diverge again.
    have diverged : r.locate ∈ divergent w seen := mark.mp already
    have same : divergent w (seen ++ [e]) = divergent w seen := by
      ext locate
      rw [member]
      exact or_iff_left_of_imp fun joined => joined.1 ▸ diverged
    exact ⟨_, rfl, checked.kept same rfl rfl rfl rfl⟩
  next unmarked =>
    have fresh : r.locate ∉ divergent w seen := fun diverged => unmarked (mark.mpr diverged)
    have lockstep : Lockstep w r.locate seen := not_not.mp fresh
    split
    next differ =>
      rw [ne_eq, decide_eq_decide, refApplied, candApplied, not_iff_not] at differ
      exact ⟨_, rfl, checked.marked short asks fresh reference candidate differ⟩
    next agree =>
      rw [ne_eq, not_not, decide_eq_decide, refApplied, candApplied, not_iff_not] at agree
      have same : divergent w (seen ++ [e]) = divergent w seen := by
        ext locate
        rw [member]
        exact or_iff_left_of_imp fun joined => absurd agree joined.2
      split
      · exact ⟨_, rfl, checked.kept same rfl rfl rfl rfl⟩
      · -- Both applied it: the two books were equal before, so they are equal now.
        have next : Lockstep w r.locate (seen ++ [e]) :=
          (lockstep_snoc w r.locate seen e).mpr ⟨lockstep, fun _ => agree⟩
        have paired := lockstep_paired (seen ++ [e]) (by simpa using short) next
        rw [← reference, ← candidate] at paired
        have views := paired.view
        unfold diffLocate
        simp only
        split
        next ref cand left right =>
          rw [left, right] at views
          rw [if_pos (statesAgree_view (Option.some.inj views))]
          exact ⟨_, rfl, checked.kept same rfl rfl rfl rfl⟩
        next => exact ⟨_, rfl, checked.kept same rfl rfl rfl rfl⟩

theorem fuzzOneInput_checked (data : List UInt8) (short : (events data).length < 2 ^ 32) :
    ∃ h, fuzzOneInput w data = some h ∧ Checked w (events data) h := by
  rw [fuzzOneInput, parseStream_events]
  simp only
  revert short
  induction events data using List.reverseRecOn with
  | nil =>
    intro short
    have none : divergent w [] = ∅ := by
      ext locate
      simp only [divergent, Set.mem_ofPred_eq, Set.mem_empty_iff_false, iff_false, not_not]
      intro before e after split
      simp at split
    refine ⟨{}, rfl, rfl, rfl, fun locate => ?_, ?_, ?_⟩
    · simp [none, isPolicyDiverged]
    · simp [none]
    · simp [none]
  | append_singleton seen e ih =>
    intro short
    rw [List.length_append, List.length_singleton] at short
    obtain ⟨h, ran, checked⟩ := ih (by omega)
    rw [List.foldl_append, ran, List.foldl_cons, List.foldl_nil]
    cases asks : request e with
    | none => exact checked.passes asks
    | some r => exact checked.applies short asks

end Runs

section Silent

variable {w : Conversion} {seen : List Event}

theorem lockstep_unknownRefs (lockstep : ∀ locate, Lockstep w locate seen) :
    (build orderBook seen).unknownRefs = (build (ladderBook w) seen).unknownRefs := by
  induction seen using List.reverseRecOn with
  | nil => rfl
  | append_singleton seen e ih =>
    have steps (locate : UInt16) := (lockstep_snoc w locate seen e).mp (lockstep locate)
    have before := ih fun locate => (steps locate).1
    have agree : Counted orderBook (build orderBook seen) e ↔
        Counted (ladderBook w) (build (ladderBook w) seen) e := by
      cases asks : request e with
      | none =>
        rw [Counted, Counted, handler_unasked _ asks, handler_unasked _ asks]
        simp [bump]
      | some r => exact (steps r.locate).2 (by rw [addressed, asks, Option.map_some])
    rw [build_append, build_append]
    rcases handler_unknownRefs orderBook (build orderBook seen) e with ⟨idle, left⟩ | ⟨counted, left⟩
    · rcases handler_unknownRefs (ladderBook w) (build (ladderBook w) seen) e with ⟨-, right⟩ | ⟨counted, -⟩
      · rw [left, right, before]
      · exact absurd (agree.mpr counted) idle
    · rcases handler_unknownRefs (ladderBook w) (build (ladderBook w) seen) e with ⟨idle, -⟩ | ⟨-, right⟩
      · exact absurd (agree.mp counted) idle
      · rw [left, right, before]

theorem lockstep_totals (short : seen.length < 2 ^ 32) (lockstep : ∀ locate, Lockstep w locate seen) :
    totals orderBookReads (build orderBook seen) = totals ladderBookReads (build (ladderBook w) seen) := by
  refine totals_agree (build_small _ seen) (build_small _ seen) (fun locate => ?_)
    (lockstep_unknownRefs lockstep) (build_counts _ _ seen)
  have views := (lockstep_paired seen short (lockstep locate)).view
  have rows := congrArg (Option.map fun v : View => (v.openOrders, v.bidLevels, v.askLevels)) views
  rw [Option.map_map, Option.map_map] at rows
  exact rows

end Silent

/-- No input makes the harness abort. It skips each locate once, where one book
first applies what the other refuses, and an input without a skip is one that
both replays print the same report for. -/
theorem harness_never_aborts (w : Conversion) (data : List UInt8) (short : (events data).length < 2 ^ 32) :
    ∃ h, fuzzOneInput w data = some h ∧
      h.policyOnlySkips.toNat = {locate | ¬ Lockstep w locate (events data)}.ncard ∧
      (∀ locate, h.isPolicyDiverged locate = false →
        (h.reference.books.find locate).map OrderBook.view = (h.candidate.books.find locate).map LadderBook.view) ∧
      (h.policyOnlySkips = 0 →
        replay orderBookReads orderBook data = replay ladderBookReads (ladderBook w) data) := by
  obtain ⟨h, ran, checked⟩ := fuzzOneInput_checked (w := w) data short
  refine ⟨h, ran, checked.skips, fun locate unmarked => ?_, fun silent => ?_⟩
  · rw [checked.reference, checked.candidate]
    refine (lockstep_paired (events data) short (not_not.mp fun diverged => ?_)).view
    rw [(checked.marks locate).mpr diverged] at unmarked
    cases unmarked
  · have none : divergent w (events data) = ∅ := by
      have size := checked.skips
      rw [silent] at size
      exact (Set.ncard_eq_zero (locates_finite _)).mp size.symm
    have lockstep (locate : UInt16) : Lockstep w locate (events data) := by
      by_contra diverged
      exact none.le (show locate ∈ divergent w (events data) from diverged)
    simp only [replay, report, parseStream_build, lockstep_totals short lockstep]

-- An add at locate 1 and price 150: only the order book takes it.
theorem harness_never_aborts_off_grid :
    let w : Conversion := ⟨fun _ => 0, fun _ => by decide⟩
    let data : List UInt8 :=
      [0, 36, 65, 0, 1, 0, 0, 0, 0, 0, 0, 0, 0, 0, 0, 0, 0, 0, 0, 0, 7, 66, 0, 0, 0, 10,
        32, 32, 32, 32, 32, 32, 32, 32, 0, 0, 0, 150]
    (events data).length < 2 ^ 32 ∧ ∃ h, fuzzOneInput w data = some h ∧ h.isPolicyDiverged 1 = true ∧
      {locate | ¬ Lockstep w locate (events data)}.ncard = 1 := by
  intro w data
  have short : (events data).length < 2 ^ 32 := by decide
  obtain ⟨h, ran, skips, -, -⟩ := harness_never_aborts w data short
  have outcome : (fuzzOneInput w data).map (fun h => (h.policyOnlySkips, h.isPolicyDiverged 1)) =
      some (1, true) := by decide
  rw [ran, Option.map_some, Option.some.injEq, Prod.mk.injEq] at outcome
  exact ⟨short, h, ran, outcome.2, by rw [← skips, outcome.1]; rfl⟩

end DivergingHandler

end ItchLob.Pipeline
