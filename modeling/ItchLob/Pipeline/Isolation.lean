import ItchLob.Shared.Interleaving
import ItchLob.Pipeline.BookBuilder

set_option autoImplicit false

namespace ItchLob.Pipeline

open Itch Book Interleaving

namespace BookTable

variable {B : Type}

def placed (t : BookTable B) (i : Nat) (book : B) : BookTable B := ⟨(t.resized i).set i (some book)⟩

theorem store_placed (api : BookType B) (t : BookTable B) (locate : UInt16) (priceHint : UInt32) (book : B) :
    (t.getOrCreate api locate priceHint).2.store locate book = t.placed locate.toNat book := by
  simp only [getOrCreate, store, placed]
  cases (t.resized locate.toNat).getD locate.toNat none with
  | some old => rfl
  | none => simp

theorem resized_eq (t : BookTable B) (i : Nat) :
    (t.resized i).length = max t.slots.length (i + 1) := by
  unfold resized
  split
  next => simp only [List.length_append, List.length_replicate]; omega
  next => omega

theorem slots_ext {t u : BookTable B} (size : t.slots.length = u.slots.length)
    (same : ∀ n, t.slots.getD n none = u.slots.getD n none) : t = u := by
  suffices t.slots = u.slots by cases t; cases u; simpa using this
  apply List.ext_getElem size
  intro n inside inside'
  have shown := same n
  rwa [List.getD_eq_getElem _ _ inside, List.getD_eq_getElem _ _ inside'] at shown

theorem placed_getD (t : BookTable B) (i : Nat) (book : B) (n : Nat) :
    (t.placed i book).slots.getD n none = if i = n then some book else t.slots.getD n none := by
  rw [placed, getD_set _ (resized_length t i), resized_getD]

theorem placed_length (t : BookTable B) (i : Nat) (book : B) :
    (t.placed i book).slots.length = max t.slots.length (i + 1) := by
  rw [placed, List.length_set, resized_eq]

theorem find_placed (t : BookTable B) (locate : UInt16) (book : B) (other : UInt16) :
    (t.placed locate.toNat book).find other = if locate = other then some book else t.find other := by
  simp only [find_getD, placed_getD, UInt16.toNat_inj]

theorem placed_comm (t : BookTable B) {i j : Nat} (apart : i ≠ j) (book other : B) :
    (t.placed i book).placed j other = (t.placed j other).placed i book := by
  apply slots_ext
  · simp only [placed_length]
    omega
  · intro n
    simp only [placed_getD]
    by_cases first : i = n
    · rw [if_neg (first ▸ Ne.symm apart), if_pos first, if_pos first]
    · rw [if_neg first, if_neg first]

def visits (t : BookTable B) : List (UInt16 × B) :=
  (List.range t.slots.length).filterMap fun i => (t.slots.getD i none).map fun book => (UInt16.ofNat i, book)

theorem forEach_visits {σ : Type} (t : BookTable B) (visit : UInt16 → B → σ → σ) (s : σ) :
    t.forEach visit s = t.visits.foldl (fun s v => visit v.1 v.2 s) s := by
  rw [forEach, visits, List.foldl_filterMap]
  congr 1
  funext s i
  cases t.slots.getD i none <;> rfl

section Small

-- Below 2^16 slots the cast of the index to a locate loses nothing.
variable {t : BookTable B} (small : t.slots.length ≤ 65536)
include small

theorem visits_increasing : (t.visits.map Prod.fst).Pairwise (· < ·) := by
  rw [List.pairwise_map, visits, List.pairwise_filterMap]
  apply List.pairwise_lt_range.imp_of_mem
  intro i j inside inside' less v seen w seen'
  rw [List.mem_range] at inside inside'
  simp only [Option.map_eq_some_iff] at seen seen'
  obtain ⟨-, -, rfl⟩ := seen
  obtain ⟨-, -, rfl⟩ := seen'
  rw [UInt16.lt_iff_toNat_lt, UInt16.toNat_ofNat_of_lt' (show i < 65536 by omega),
    UInt16.toNat_ofNat_of_lt' (show j < 65536 by omega)]
  exact less

theorem mem_visits (locate : UInt16) (book : B) : (locate, book) ∈ t.visits ↔ t.find locate = some book := by
  rw [find_getD, visits, List.mem_filterMap]
  constructor
  · rintro ⟨i, inside, seen⟩
    rw [List.mem_range] at inside
    obtain ⟨found, here, same⟩ := Option.map_eq_some_iff.mp seen
    obtain ⟨rfl, rfl⟩ := Prod.mk.inj same
    rwa [UInt16.toNat_ofNat_of_lt' (show i < 65536 by omega)]
  · intro here
    have inside : locate.toNat < t.slots.length := by
      by_contra outside
      rw [List.getD_eq_getElem?_getD, List.getElem?_eq_none (Nat.le_of_not_lt outside)] at here
      cases here
    exact ⟨locate.toNat, List.mem_range.mpr inside, by rw [here, Option.map_some, UInt16.ofNat_toNat]⟩

end Small

end BookTable

namespace BookBuilder

variable {B : Type} (api : BookType B)

-- Unhandled messages have no locate: they form a lane of their own.
def destination (e : Event) : Option UInt16 := (request e).map Request.locate

theorem route_eq (h : BookBuilder B) (t : UInt8) (locate : UInt16) (priceHint : UInt32)
    (apply : B → Bool × B) :
    h.route api t locate priceHint apply =
      { books := h.books.placed locate.toNat (apply ((h.books.find locate).getD (api.make priceHint))).2
        counts := (h.bump t).counts
        unknownRefs :=
          if (apply ((h.books.find locate).getD (api.make priceHint))).1 then h.unknownRefs
          else h.unknownRefs + 1 } := by
  simp only [route, BookTable.store_placed, BookTable.getOrCreate_book]
  rfl

theorem bump_comm (h : BookBuilder B) (t u : UInt8) :
    ((h.bump t).bump u).counts = ((h.bump u).bump t).counts := by
  funext c
  simp only [bump]
  split_ifs <;> rfl

theorem handler_unasked {e : Event} (silent : request e = none) (h : BookBuilder B) :
    handler api e h = h.bump (letter e) := by
  cases e with
  | other type len => rfl
  | _ m => cases silent

theorem unasked_comm {e d : Event} {q : Request} (silent : request e = none) (asks : request d = some q)
    (h : BookBuilder B) : handler api d (handler api e h) = handler api e (handler api d h) := by
  rw [handler_unasked api silent, handler_unasked api silent, handler_request api asks,
    handler_request api asks, route_eq, route_eq]
  congr 1
  exact bump_comm h (letter e) (letter d)

theorem handler_comm (h : BookBuilder B) (e d : Event) (apart : destination e ≠ destination d) :
    handler api d (handler api e h) = handler api e (handler api d h) := by
  cases asks : request e with
  | none =>
    cases asks' : request d with
    | none => exact absurd (by rw [destination, destination, asks, asks']) apart
    | some q => exact unasked_comm api asks asks' h
  | some r =>
    cases asks' : request d with
    | none => exact (unasked_comm api asks' asks h).symm
    | some q =>
      have differ : r.locate ≠ q.locate := by
        intro same
        exact apart (by simp [destination, asks, asks', same])
      have differNat : r.locate.toNat ≠ q.locate.toNat := fun same => differ (UInt16.toNat_inj.mp same)
      rw [handler_request api asks, handler_request api asks', handler_request api asks',
        handler_request api asks]
      -- Neither message sees the other's book, so both orders make the same two calls.
      simp only [route_eq, BookTable.find_placed, if_neg differ, if_neg (Ne.symm differ)]
      congr 1
      · exact BookTable.placed_comm _ differNat _ _
      · exact bump_comm h (letter e) (letter d)
      · split_ifs <;> rfl

theorem build_small (events : List Event) : (build api events).books.slots.length ≤ 65536 := by
  induction events using List.reverseRecOn with
  | nil => exact Nat.zero_le _
  | append_singleton seen e ih =>
    rw [build_append]
    cases asks : request e with
    | none =>
      rw [handler_unasked api asks]
      exact ih
    | some r =>
      have bound := r.locate.toNat_lt
      rw [handler_request api asks, route_eq, BookTable.placed_length]
      omega

theorem build_lane (events : List Event) (locate : UInt16) :
    (build api events).books.find locate =
      (build api (lane destination (some locate) events)).books.find locate := by
  refine view_lane destination (fun h e => handler api e h) (fun h => h.books.find locate) (some locate)
    (fun h e apart => unaddressed_find api apart h) ?_ events rfl
  intro h h' e mine same
  obtain ⟨r, asks, -⟩ := Option.map_eq_some_iff.mp mine
  simp only [request_find api asks, same]

/-- Symbols do not interfere: a locate's book is what its own messages make it,
any two interleavings of the same per-locate sequences build the same table, and
for_each visits the constructed locates once each, in increasing order. -/
theorem locates_isolated :
    (∀ (events : List Event) (locate : UInt16),
      (build api events).books.find locate =
        (build api (events.filter fun e => destination e = some locate)).books.find locate) ∧
    (∀ first second : List Event,
      (∀ place, (first.filter fun e => destination e = place) = second.filter fun e => destination e = place) →
      build api first = build api second) ∧
    ∀ events : List Event, ∃ visits : List (UInt16 × B),
      (∀ (σ : Type) (visit : UInt16 → B → σ → σ) (s : σ),
        (build api events).books.forEach visit s = visits.foldl (fun s v => visit v.1 v.2 s) s) ∧
      (visits.map Prod.fst).Pairwise (· < ·) ∧
      ∀ locate book, (locate, book) ∈ visits ↔ (build api events).books.find locate = some book := by
  refine ⟨build_lane api, ?_, ?_⟩
  · intro first second same
    exact foldl_lanes destination (fun h e => handler api e h) (handler_comm api) first second same {}
  · intro events
    have small := build_small api events
    exact ⟨(build api events).books.visits, fun _ visit s => BookTable.forEach_visits _ visit s,
      BookTable.visits_increasing small, BookTable.mem_visits small⟩

end BookBuilder

end ItchLob.Pipeline
