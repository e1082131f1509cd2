import ItchLob.Itch.Parser
import ItchLob.Book.OrderBook

set_option autoImplicit false

namespace ItchLob.Pipeline

open Itch Book

structure BookType (B : Type) where
  make : UInt32 → B
  add : B → UInt64 → Side → UInt32 → UInt32 → Bool × B
  execute : B → UInt64 → UInt32 → Bool × B
  cancel : B → UInt64 → UInt32 → Bool × B
  remove : B → UInt64 → Bool × B
  replace : B → UInt64 → UInt64 → UInt32 → UInt32 → Bool × B

-- BookTraits' primary template: the hint is ignored.
def orderBook : BookType OrderBook where
  make _ := {}
  add := OrderBook.add
  execute := OrderBook.execute
  cancel := OrderBook.cancel
  remove := OrderBook.remove
  replace := OrderBook.replace

structure BookTable (B : Type) where
  slots : List (Option B) := []

namespace BookTable

variable {B : Type}

def resized (t : BookTable B) (idx : Nat) : List (Option B) :=
  if t.slots.length ≤ idx then t.slots ++ List.replicate (idx + 1 - t.slots.length) none else t.slots

-- The returned reference is the pair of the book and the table that holds it.
def getOrCreate (api : BookType B) (t : BookTable B) (locate : UInt16) (priceHint : UInt32) :
    B × BookTable B :=
  let slots := t.resized locate.toNat
  match slots.getD locate.toNat none with
  | some book => (book, ⟨slots⟩)
  | none => (api.make priceHint, ⟨slots.set locate.toNat (some (api.make priceHint))⟩)

def store (t : BookTable B) (locate : UInt16) (book : B) : BookTable B :=
  ⟨t.slots.set locate.toNat (some book)⟩

def find (t : BookTable B) (locate : UInt16) : Option B :=
  if t.slots.length ≤ locate.toNat then none else t.slots.getD locate.toNat none

-- `visit` is the callback, with the state it closes over passed along.
def forEach {σ : Type} (t : BookTable B) (visit : UInt16 → B → σ → σ) (s : σ) : σ :=
  (List.range t.slots.length).foldl (fun s i =>
    match t.slots.getD i none with
    | some book => visit (UInt16.ofNat i) book s
    | none => s) s

def bookCount (t : BookTable B) : Nat := (t.slots.filter Option.isSome).length

theorem find_getD (t : BookTable B) (locate : UInt16) : t.find locate = t.slots.getD locate.toNat none := by
  unfold find
  split
  next outside => rw [List.getD_eq_getElem?_getD, List.getElem?_eq_none outside, Option.getD_none]
  next => rfl

theorem resized_getD (t : BookTable B) (idx i : Nat) :
    (t.resized idx).getD i none = t.slots.getD i none := by
  unfold resized
  split
  · simp only [List.getD_eq_getElem?_getD, List.getElem?_append, List.getElem?_replicate]
    by_cases inside : i < t.slots.length
    · simp [inside]
    · rw [if_neg inside, List.getElem?_eq_none (Nat.le_of_not_lt inside)]
      split <;> rfl
  · rfl

theorem resized_length (t : BookTable B) (idx : Nat) : idx < (t.resized idx).length := by
  unfold resized
  split
  · simp only [List.length_append, List.length_replicate]
    omega
  · omega

theorem getD_set (slots : List (Option B)) {i : Nat} (inside : i < slots.length) (j : Nat) (b : Option B) :
    (slots.set i b).getD j none = if i = j then b else slots.getD j none := by
  by_cases here : i = j
  · subst here
    simp [List.getD_eq_getElem?_getD, inside]
  · simp [List.getD_eq_getElem?_getD, here]

section GetOrCreate

variable (api : BookType B) (t : BookTable B) (locate : UInt16) (priceHint : UInt32)

theorem getOrCreate_book :
    (t.getOrCreate api locate priceHint).1 = (t.find locate).getD (api.make priceHint) := by
  simp only [getOrCreate, find_getD, resized_getD]
  cases t.slots.getD locate.toNat none <;> rfl

theorem getOrCreate_store (book : B) (other : UInt16) :
    ((t.getOrCreate api locate priceHint).2.store locate book).find other =
      if locate = other then some book else t.find other := by
  have room := resized_length t locate.toNat
  simp only [find_getD, store, getOrCreate, ← UInt16.toNat_inj]
  cases (t.resized locate.toNat).getD locate.toNat none with
  | some old => rw [getD_set _ room, resized_getD]
  | none =>
    rw [getD_set _ (by rwa [List.length_set]), getD_set _ room, resized_getD]
    split <;> rfl

end GetOrCreate

end BookTable

structure BookBuilder (B : Type) where
  books : BookTable B := {}
  counts : UInt8 → UInt64 := fun _ => 0
  unknownRefs : UInt64 := 0

namespace BookBuilder

section Callbacks

variable {B : Type} (api : BookType B)

def bump (h : BookBuilder B) (t : UInt8) : BookBuilder B :=
  { h with counts := fun c => if c = t then h.counts c + 1 else h.counts c }

-- The shape of all six callbacks: count the type, resolve the book, apply, and
-- count an unknown reference when the book refuses.
def route (h : BookBuilder B) (t : UInt8) (locate : UInt16) (priceHint : UInt32)
    (apply : B → Bool × B) : BookBuilder B :=
  let h := h.bump t
  let slot := h.books.getOrCreate api locate priceHint
  let applied := apply slot.1
  { h with
    books := slot.2.store locate applied.2
    unknownRefs := if applied.1 then h.unknownRefs else h.unknownRefs + 1 }

def onAdd (h : BookBuilder B) (m : AddOrder) : BookBuilder B :=
  h.route api 'A'.toUInt8 m.hdr.locate m.price fun b => api.add b m.ref m.side m.shares m.price

def onExecute (h : BookBuilder B) (m : OrderExecuted) : BookBuilder B :=
  h.route api 'E'.toUInt8 m.hdr.locate 0 fun b => api.execute b m.ref m.shares

def onExecutePrice (h : BookBuilder B) (m : OrderExecutedPrice) : BookBuilder B :=
  h.route api 'C'.toUInt8 m.hdr.locate 0 fun b => api.execute b m.ref m.shares

def onCancel (h : BookBuilder B) (m : OrderCancel) : BookBuilder B :=
  h.route api 'X'.toUInt8 m.hdr.locate 0 fun b => api.cancel b m.ref m.canceled

def onDelete (h : BookBuilder B) (m : OrderDelete) : BookBuilder B :=
  h.route api 'D'.toUInt8 m.hdr.locate 0 fun b => api.remove b m.ref

def onReplace (h : BookBuilder B) (m : OrderReplace) : BookBuilder B :=
  h.route api 'U'.toUInt8 m.hdr.locate m.price fun b => api.replace b m.origRef m.newRef m.shares m.price

def onOther (h : BookBuilder B) (type : UInt8) (_len : Nat) : BookBuilder B := h.bump type

def handler : Handler (BookBuilder B)
  | .add m, h => h.onAdd api m
  | .execute m, h => h.onExecute api m
  | .executePrice m, h => h.onExecutePrice api m
  | .cancel m, h => h.onCancel api m
  | .delete m, h => h.onDelete api m
  | .replace m, h => h.onReplace api m
  | .other type len, h => h.onOther type len

def build (events : List Event) : BookBuilder B := events.foldl (fun h e => handler api e h) {}

theorem parseStream_build (data : List UInt8) :
    parseStream (handler api) data {} = (build api (events data), (events data).length) :=
  parseStream_events (handler api) data {}

theorem build_append (seen : List Event) (e : Event) :
    build api (seen ++ [e]) = handler api e (build api seen) := by
  simp [build]

end Callbacks

structure Request where
  locate : UInt16
  priceHint : UInt32
  call : Call

end BookBuilder

def BookType.call {B : Type} (api : BookType B) (b : B) : Call → Bool × B
  | .add ref side shares price => api.add b ref side shares price
  | .execute ref shares => api.execute b ref shares
  | .cancel ref shares => api.cancel b ref shares
  | .remove ref => api.remove b ref
  | .replace orig next shares price => api.replace b orig next shares price

namespace BookBuilder

-- The book call an event makes; unhandled messages make none.
def request : Event → Option Request
  | .add m => some ⟨m.hdr.locate, m.price, .add m.ref m.side m.shares m.price⟩
  | .execute m => some ⟨m.hdr.locate, 0, .execute m.ref m.shares⟩
  | .executePrice m => some ⟨m.hdr.locate, 0, .execute m.ref m.shares⟩
  | .cancel m => some ⟨m.hdr.locate, 0, .cancel m.ref m.canceled⟩
  | .delete m => some ⟨m.hdr.locate, 0, .remove m.ref⟩
  | .replace m => some ⟨m.hdr.locate, m.price, .replace m.origRef m.newRef m.shares m.price⟩
  | .other _ _ => none

-- The type an event is counted under; 'F' counts as 'A'.
def letter : Event → UInt8
  | .add _ => 'A'.toUInt8
  | .execute _ => 'E'.toUInt8
  | .executePrice _ => 'C'.toUInt8
  | .cancel _ => 'X'.toUInt8
  | .delete _ => 'D'.toUInt8
  | .replace _ => 'U'.toUInt8
  | .other type _ => type

def addressed (locate : UInt16) (e : Event) : Prop := (request e).map Request.locate = some locate

def Counted {B : Type} (api : BookType B) (h : BookBuilder B) (e : Event) : Prop :=
  (handler api e h).unknownRefs ≠ h.unknownRefs

section Locate

variable {B : Type} (api : BookType B)

theorem handler_request {e : Event} {r : Request} (asks : request e = some r) (h : BookBuilder B) :
    handler api e h = h.route api (letter e) r.locate r.priceHint fun b => api.call b r.call := by
  cases e with
  | other type len => simp [request] at asks
  | _ m =>
    simp only [request, Option.some.injEq] at asks
    subst asks
    rfl

theorem request_find {e : Event} {r : Request} (asks : request e = some r) (h : BookBuilder B)
    (locate : UInt16) :
    (handler api e h).books.find locate =
      if r.locate = locate then
        some (api.call ((h.books.find locate).getD (api.make r.priceHint)) r.call).2
      else h.books.find locate := by
  rw [handler_request api asks, route, BookTable.getOrCreate_store, BookTable.getOrCreate_book]
  by_cases here : r.locate = locate
  · rw [if_pos here, if_pos here, here]
    rfl
  · rw [if_neg here, if_neg here]
    rfl

theorem request_counted {e : Event} {r : Request} (asks : request e = some r) (h : BookBuilder B) :
    Counted api h e ↔
      (api.call ((h.books.find r.locate).getD (api.make r.priceHint)) r.call).1 = false := by
  rw [Counted, handler_request api asks, route, BookTable.getOrCreate_book]
  change (if (api.call ((h.books.find r.locate).getD _) _).1 then _ else _) ≠ h.unknownRefs ↔ _
  cases (api.call ((h.books.find r.locate).getD (api.make r.priceHint)) r.call).1 with
  | true => simp [bump]
  | false => simp [bump]

theorem unaddressed_find {e : Event} {locate : UInt16} (apart : ¬ addressed locate e) (h : BookBuilder B) :
    (handler api e h).books.find locate = h.books.find locate := by
  cases asks : request e with
  | none => cases e <;> simp [request] at asks; rfl
  | some r =>
    rw [request_find api asks, if_neg]
    intro here
    exact apart (by rw [addressed, asks, Option.map_some, here])

end Locate

end BookBuilder

end ItchLob.Pipeline
