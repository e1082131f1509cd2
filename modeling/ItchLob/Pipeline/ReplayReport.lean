import ItchLob.Pipeline.Isolation
import ItchLob.Pipeline.PublishingHandler

set_option autoImplicit false

namespace ItchLob.Pipeline

open Itch Book BookBuilder

/-- The lines that every binary prints of its books; a type is listed when it
has been counted. -/
structure Totals where
  books : Nat
  openOrders : Nat
  bidLevels : Nat
  askLevels : Nat
  unknownRefs : UInt64
  byType : List (UInt8 × UInt64)
  deriving DecidableEq, Repr

structure Report where
  bytes : Nat
  frames : Nat
  totals : Totals
  deriving DecidableEq, Repr

def framesByType (counts : UInt8 → UInt64) : List (UInt8 × UInt64) :=
  ((List.range 256).map UInt8.ofNat).filterMap fun t => if 0 < counts t then some (t, counts t) else none

section Report

variable {B : Type} (reads : BookReads B)

-- open_orders, bid_levels and ask_levels, as the callback of for_each adds them up.
def addBook (b : B) (sums : Nat × Nat × Nat) : Nat × Nat × Nat :=
  (sums.1 + reads.openOrders b, sums.2.1 + reads.bidLevels b, sums.2.2 + reads.askLevels b)

def totals (h : BookBuilder B) : Totals :=
  let sums := h.books.forEach (fun _ b sums => addBook reads b sums) (0, 0, 0)
  { books := h.books.bookCount
    openOrders := sums.1
    bidLevels := sums.2.1
    askLevels := sums.2.2
    unknownRefs := h.unknownRefs
    byType := framesByType h.counts }

def report (h : BookBuilder B) (bytes frames : Nat) : Report := { bytes, frames, totals := totals reads h }

variable (api : BookType B)

def replay (data : List UInt8) : Report :=
  let parsed := parseStream (handler api) data {}
  report reads parsed.1 data.length parsed.2

end Report

section Rows

variable {B : Type} (reads : BookReads B)

def row (b : B) : Nat × Nat × Nat := (reads.openOrders b, reads.bidLevels b, reads.askLevels b)

def rows (t : BookTable B) : List (UInt16 × Nat × Nat × Nat) := t.visits.map fun v => (v.1, row reads v.2)

def Totals.ofRows (rows : List (UInt16 × Nat × Nat × Nat)) (unknownRefs : UInt64) (counts : UInt8 → UInt64) :
    Totals :=
  let sums := (rows.map Prod.snd).sum
  { books := rows.length
    openOrders := sums.1
    bidLevels := sums.2.1
    askLevels := sums.2.2
    unknownRefs
    byType := framesByType counts }

theorem Totals.ofRows_perm {rows other : List (UInt16 × Nat × Nat × Nat)} (same : rows.Perm other)
    (unknownRefs : UInt64) (counts : UInt8 → UInt64) :
    Totals.ofRows rows unknownRefs counts = Totals.ofRows other unknownRefs counts := by
  simp only [Totals.ofRows, (same.map Prod.snd).sum_eq, same.length_eq]

theorem foldl_addBook (books : List B) (start : Nat × Nat × Nat) :
    books.foldl (fun s b => addBook reads b s) start = start + (books.map (row reads)).sum := by
  induction books generalizing start with
  | nil => rfl
  | cons b rest ih =>
    rw [List.foldl_cons, ih, List.map_cons, List.sum_cons, ← add_assoc]
    rfl

theorem bookCount_visits (t : BookTable B) : t.bookCount = t.visits.length := by
  have slots : t.slots = (List.range t.slots.length).map fun i => t.slots.getD i none := by
    apply List.ext_getElem (by simp)
    intro n inside inside'
    simp [List.getD_eq_getElem?_getD, inside]
  rw [BookTable.bookCount, BookTable.visits, List.length_filterMap_eq_countP, ← List.countP_eq_length_filter]
  conv => lhs; rw [slots, List.countP_map]
  congr 1
  funext i
  simp

theorem totals_rows (h : BookBuilder B) :
    totals reads h = Totals.ofRows (rows reads h.books) h.unknownRefs h.counts := by
  have books : (rows reads h.books).map Prod.snd = (h.books.visits.map Prod.snd).map (row reads) := by
    rw [rows, List.map_map, List.map_map]
    rfl
  have folded : h.books.forEach (fun _ b sums => addBook reads b sums) (0, 0, 0) =
      ((rows reads h.books).map Prod.snd).sum := by
    have added := foldl_addBook reads (h.books.visits.map Prod.snd) (0, 0, 0)
    rw [List.foldl_map] at added
    rw [BookTable.forEach_visits, added, books]
    exact zero_add _
  rw [totals, folded, bookCount_visits, Totals.ofRows, rows, List.length_map]

variable {t : BookTable B} (small : t.slots.length ≤ 65536)
include small

theorem mem_rows (locate : UInt16) (r : Nat × Nat × Nat) :
    (locate, r) ∈ rows reads t ↔ (t.find locate).map (row reads) = some r := by
  rw [rows, List.mem_map, Option.map_eq_some_iff]
  constructor
  · rintro ⟨⟨place, b⟩, inside, same⟩
    obtain ⟨rfl, rfl⟩ := Prod.mk.inj same
    exact ⟨b, (BookTable.mem_visits small _ b).mp inside, rfl⟩
  · rintro ⟨b, here, rfl⟩
    exact ⟨(locate, b), (BookTable.mem_visits small locate b).mpr here, rfl⟩

theorem rows_nodup : (rows reads t).Nodup := by
  have places : ((rows reads t).map Prod.fst).Nodup := by
    have increasing := BookTable.visits_increasing small
    rw [rows, List.map_map]
    exact increasing.imp fun less => UInt16.ne_of_lt less
  exact places.of_map _

end Rows

theorem rows_perm {B : Type} {reads : BookReads B} {t : BookTable B} (small : t.slots.length ≤ 65536)
    {other : List (UInt16 × Nat × Nat × Nat)} (distinct : other.Nodup)
    (same : ∀ locate r, (locate, r) ∈ other ↔ (t.find locate).map (row reads) = some r) :
    (rows reads t).Perm other := by
  rw [List.perm_ext_iff_of_nodup (rows_nodup reads small) distinct]
  rintro ⟨locate, r⟩
  rw [mem_rows reads small, same]

theorem totals_agree {B B' : Type} {reads : BookReads B} {reads' : BookReads B'} {h : BookBuilder B}
    {h' : BookBuilder B'} (small : h.books.slots.length ≤ 65536) (small' : h'.books.slots.length ≤ 65536)
    (books : ∀ locate, (h.books.find locate).map (row reads) = (h'.books.find locate).map (row reads'))
    (unknownRefs : h.unknownRefs = h'.unknownRefs) (counts : h.counts = h'.counts) :
    totals reads h = totals reads' h' := by
  rw [totals_rows, totals_rows, unknownRefs, counts]
  refine Totals.ofRows_perm (rows_perm small (rows_nodup reads' small') fun locate r => ?_) _ _
  rw [mem_rows reads' small', books]

theorem build_counts {B B' : Type} (api : BookType B) (api' : BookType B') (seen : List Event) :
    (build api seen).counts = (build api' seen).counts := by
  induction seen using List.reverseRecOn with
  | nil => rfl
  | append_singleton seen e ih =>
    rw [build_append, build_append]
    cases asks : request e with
    | none =>
      rw [handler_unasked api asks, handler_unasked api' asks]
      simp only [bump, ih]
    | some r =>
      rw [handler_request api asks, handler_request api' asks, route_eq, route_eq]
      simp only [bump, ih]

theorem handler_unknownRefs {B : Type} (api : BookType B) (h : BookBuilder B) (e : Event) :
    (¬ Counted api h e ∧ (handler api e h).unknownRefs = h.unknownRefs) ∨
      (Counted api h e ∧ (handler api e h).unknownRefs = h.unknownRefs + 1) := by
  cases asks : request e with
  | none =>
    have same : (handler api e h).unknownRefs = h.unknownRefs := by rw [handler_unasked api asks, bump]
    exact .inl ⟨fun counted => counted same, same⟩
  | some r =>
    rw [request_counted api asks, handler_request api asks, route_eq]
    simp only
    cases (api.call ((h.books.find r.locate).getD (api.make r.priceHint)) r.call).1 with
    | true => exact .inl ⟨by simp, by simp⟩
    | false => exact .inr ⟨rfl, by simp⟩

end ItchLob.Pipeline
