import ItchLob.Pipeline.BookSnapshot
import ItchLob.Pipeline.Differential
import ItchLob.Pipeline.Isolation

set_option autoImplicit false

namespace ItchLob.Pipeline

open Itch Book

structure BookReads (B : Type) where
  bestBid : B → Option Quote
  bestAsk : B → Option Quote
  openOrders : B → Nat
  bidLevels : B → Nat
  askLevels : B → Nat

def orderBookReads : BookReads OrderBook where
  bestBid := OrderBook.bestBid
  bestAsk := OrderBook.bestAsk
  openOrders := OrderBook.openOrders
  bidLevels := OrderBook.bidLevels
  askLevels := OrderBook.askLevels

def ladderBookReads : BookReads LadderBook where
  bestBid := LadderBook.bestBid
  bestAsk := LadderBook.bestAsk
  openOrders := LadderBook.openOrders
  bidLevels := LadderBook.bidLevels
  askLevels := LadderBook.askLevels

section Snapshot

variable {B : Type} (reads : BookReads B)

def BookReads.snapshot (locate : UInt16) (b : B) : LocateSnapshot :=
  let s : LocateSnapshot := { locate }
  let s := match reads.bestBid b with
    | some q => { s with hasBid := true, bidPrice := q.price, bidShares := q.shares }
    | none => s
  let s := match reads.bestAsk b with
    | some q => { s with hasAsk := true, askPrice := q.price, askShares := q.shares }
    | none => s
  { s with
    openOrders := reads.openOrders b
    bidLevels := reads.bidLevels b
    askLevels := reads.askLevels b }

def snapshotBookTable (books : BookTable B) : List LocateSnapshot :=
  books.forEach (fun locate b out => out ++ [reads.snapshot locate b]) []

structure Shows (locate : UInt16) (b : B) (s : LocateSnapshot) : Prop where
  locate : s.locate = locate
  bid : (if s.hasBid then some ⟨s.bidPrice, s.bidShares⟩ else none) = reads.bestBid b
  ask : (if s.hasAsk then some ⟨s.askPrice, s.askShares⟩ else none) = reads.bestAsk b
  openOrders : s.openOrders = reads.openOrders b
  bidLevels : s.bidLevels = reads.bidLevels b
  askLevels : s.askLevels = reads.askLevels b

theorem snapshot_shows (locate : UInt16) (b : B) : Shows reads locate b (reads.snapshot locate b) := by
  unfold BookReads.snapshot
  constructor <;> cases reads.bestBid b <;> cases reads.bestAsk b <;> rfl

def entryAt (books : BookTable B) (i : Nat) : Option LocateSnapshot :=
  (books.slots.getD i none).map (reads.snapshot (UInt16.ofNat i))

theorem snapshotBookTable_entries (books : BookTable B) :
    snapshotBookTable reads books = (List.range books.slots.length).filterMap (entryAt reads books) := by
  rw [snapshotBookTable, BookTable.forEach]
  generalize books.slots.length = n
  induction n with
  | zero => rfl
  | succ n ih =>
    rw [List.range_succ, List.foldl_append, ih, List.filterMap_append]
    simp only [List.foldl_cons, List.foldl_nil, List.filterMap_cons, List.filterMap_nil, entryAt]
    cases books.slots.getD n none <;> simp

theorem entryAt_locate {books : BookTable B} {i : Nat} {s : LocateSnapshot} (here : entryAt reads books i = some s) :
    s.locate = UInt16.ofNat i := by
  obtain ⟨b, -, rfl⟩ := Option.map_eq_some_iff.mp here
  exact (snapshot_shows reads _ b).locate

-- The loop index is cast to 16 bits, so this is where the table's size matters.
theorem entries_find {books : BookTable B} (locate : UInt16) {n : Nat} (narrow : n ≤ 65536) :
    ((List.range n).filterMap (entryAt reads books)).find? (fun s => s.locate = locate) =
      if locate.toNat < n then entryAt reads books locate.toNat else none := by
  induction n with
  | zero => rfl
  | succ n ih =>
    have last : (([n] : List Nat).filterMap (entryAt reads books)).find? (fun s => s.locate = locate) =
        if locate.toNat = n then entryAt reads books n else none := by
      have index : (UInt16.ofNat n).toNat = n := UInt16.toNat_ofNat_of_lt' (Nat.lt_of_succ_le narrow)
      rw [List.filterMap_cons, List.filterMap_nil]
      split
      next absent => rw [absent, List.find?_nil, ite_self]
      next s here =>
        have cast : s.locate.toNat = n := by rw [entryAt_locate reads here, index]
        by_cases same : locate.toNat = n
        · have mine : s.locate = locate := UInt16.toNat_inj.mp (cast.trans same.symm)
          rw [if_pos same, here]
          simp [mine]
        · have other : s.locate ≠ locate := fun equal => same (equal ▸ cast)
          rw [if_neg same]
          simp [other]
    rw [List.range_succ, List.filterMap_append, List.find?_append, ih (by omega), last]
    rcases Nat.lt_trichotomy locate.toNat n with before | here | after
    · rw [if_pos before, if_neg (Nat.ne_of_lt before), if_pos (Nat.lt_succ_of_lt before), Option.or_none]
    · rw [if_neg (by omega), if_pos here, if_pos (by omega), Option.none_or, here]
    · rw [if_neg (by omega), if_neg (by omega), if_neg (by omega), Option.none_or]

theorem snapshotBookTable_find {books : BookTable B} (narrow : books.slots.length ≤ 65536) (locate : UInt16) :
    (snapshotBookTable reads books).find? (fun s => s.locate = locate) =
      (books.find locate).map (reads.snapshot locate) := by
  rw [snapshotBookTable_entries, entries_find reads locate narrow, BookTable.find]
  by_cases outside : books.slots.length ≤ locate.toNat
  · rw [if_neg (Nat.not_lt.mpr outside), if_pos outside, Option.map_none]
  · rw [if_pos (Nat.not_le.mp outside), if_neg outside, entryAt, UInt16.ofNat_toNat]

end Snapshot

structure PublishingHandler (B : Type) where
  inner : BookBuilder B := {}
  store : SnapshotStore := {}
  publishEvery : Nat
  sincePublish : Nat := 0

namespace PublishingHandler

variable {B : Type}

section Callbacks

variable (api : BookType B) (reads : BookReads B)

def publish (h : PublishingHandler B) : PublishingHandler B :=
  { h with store := h.store.publish (snapshotBookTable reads h.inner.books) h.inner.unknownRefs }

-- The pace only sleeps after a publish.
def maybePublish (h : PublishingHandler B) : PublishingHandler B :=
  if h.publishEvery = 0 then h
  else
    let h := { h with sincePublish := h.sincePublish + 1 }
    if h.sincePublish < h.publishEvery then h
    else publish reads { h with sincePublish := 0 }

def onAdd (h : PublishingHandler B) (m : AddOrder) : PublishingHandler B :=
  maybePublish reads { h with inner := h.inner.onAdd api m }

def onExecute (h : PublishingHandler B) (m : OrderExecuted) : PublishingHandler B :=
  maybePublish reads { h with inner := h.inner.onExecute api m }

def onExecutePrice (h : PublishingHandler B) (m : OrderExecutedPrice) : PublishingHandler B :=
  maybePublish reads { h with inner := h.inner.onExecutePrice api m }

def onCancel (h : PublishingHandler B) (m : OrderCancel) : PublishingHandler B :=
  maybePublish reads { h with inner := h.inner.onCancel api m }

def onDelete (h : PublishingHandler B) (m : OrderDelete) : PublishingHandler B :=
  maybePublish reads { h with inner := h.inner.onDelete api m }

def onReplace (h : PublishingHandler B) (m : OrderReplace) : PublishingHandler B :=
  maybePublish reads { h with inner := h.inner.onReplace api m }

def onOther (h : PublishingHandler B) (type : UInt8) (len : Nat) : PublishingHandler B :=
  { h with inner := h.inner.onOther type len }

def handler : Handler (PublishingHandler B)
  | .add m, h => h.onAdd api reads m
  | .execute m, h => h.onExecute api reads m
  | .executePrice m, h => h.onExecutePrice api reads m
  | .cancel m, h => h.onCancel api reads m
  | .delete m, h => h.onDelete api reads m
  | .replace m, h => h.onReplace api reads m
  | .other type len, h => h.onOther type len

def run (publishEvery : Nat) (data : List UInt8) : PublishingHandler B × Nat :=
  let parsed := parseStream (handler api reads) data { publishEvery }
  (publish reads parsed.1, parsed.2)

theorem handler_decoded {e : Event} (decoded : e.decoded = true) (h : PublishingHandler B) :
    handler api reads e h = maybePublish reads { h with inner := BookBuilder.handler api e h.inner } := by
  cases e with
  | other type len => simp [Event.decoded] at decoded
  | _ m => rfl

theorem handler_other {e : Event} (other : e.decoded = false) (h : PublishingHandler B) :
    handler api reads e h = { h with inner := BookBuilder.handler api e h.inner } := by
  cases e with
  | other type len => rfl
  | _ m => simp [Event.decoded] at other

end Callbacks

end PublishingHandler

section Builder

variable {B : Type} (api : BookType B)

def Alike (h k : BookBuilder B) : Prop := h.books = k.books ∧ h.unknownRefs = k.unknownRefs

theorem handler_alike {h k : BookBuilder B} (alike : Alike h k) (e : Event) :
    Alike (BookBuilder.handler api e h) (BookBuilder.handler api e k) := by
  cases asks : BookBuilder.request e with
  | none => cases e <;> simp [BookBuilder.request] at asks; exact alike
  | some r =>
    rw [BookBuilder.handler_request api asks, BookBuilder.handler_request api asks]
    obtain ⟨books, counts, unknownRefs⟩ := h
    obtain ⟨rfl, rfl⟩ := alike
    exact ⟨rfl, rfl⟩

def touching (seen : List Event) : List Event := seen.filter Event.decoded

-- on_other neither touches a book nor counts an unknown reference.
theorem build_touching (seen : List Event) :
    Alike (BookBuilder.build api seen) (BookBuilder.build api (touching seen)) := by
  induction seen using List.reverseRecOn with
  | nil => exact ⟨rfl, rfl⟩
  | append_singleton seen e ih =>
    rw [touching, List.filter_append, BookBuilder.build_append]
    cases decoded : e.decoded with
    | true =>
      rw [List.filter_cons_of_pos decoded, List.filter_nil, BookBuilder.build_append]
      exact handler_alike api ih e
    | false =>
      rw [List.filter_cons_of_neg (by simp [decoded]), List.filter_nil, List.append_nil]
      cases e with
      | other type len => exact ih
      | _ m => simp [Event.decoded] at decoded

end Builder

section Cuts

variable {B : Type} (api : BookType B) (reads : BookReads B) (every : Nat)

def cut (seen : List Event) (k : Nat) : BookBuilder B := BookBuilder.build api ((touching seen).take (k * every))

structure Describes (store : SnapshotStore) (h : BookBuilder B) : Prop where
  unknownRefs : store.unknownRefs = h.unknownRefs
  entries : store.readAll = snapshotBookTable reads h.books
  found : ∀ locate, Option.Rel (Shows reads locate) (h.books.find locate) (store.find locate)

theorem Describes.alike {store : SnapshotStore} {h k : BookBuilder B} (describes : Describes reads store h)
    (alike : Alike h k) : Describes reads store k :=
  ⟨alike.2 ▸ describes.unknownRefs, alike.1 ▸ describes.entries, alike.1 ▸ describes.found⟩

theorem publish_describes (store : SnapshotStore) (seen : List Event) :
    Describes reads
      (store.publish (snapshotBookTable reads (BookBuilder.build api seen).books)
        (BookBuilder.build api seen).unknownRefs)
      (BookBuilder.build api seen) := by
  refine ⟨rfl, rfl, fun locate => ?_⟩
  have found := snapshotBookTable_find reads (BookBuilder.build_small api seen) locate
  rw [SnapshotStore.publish, SnapshotStore.find, found]
  cases (BookBuilder.build api seen).books.find locate with
  | none => exact .none
  | some b => exact .some (snapshot_shows reads locate b)

structure Publishes (seen : List Event) (h : PublishingHandler B) : Prop where
  inner : h.inner = BookBuilder.build api seen
  interval : h.publishEvery = every
  counter : every ≠ 0 → h.sincePublish = (touching seen).length % every
  version : h.store.version = UInt64.ofNat ((touching seen).length / every)
  fresh : (touching seen).length / every = 0 → h.store = {}
  latest : 0 < (touching seen).length / every →
    Describes reads h.store (cut api every seen ((touching seen).length / every))

theorem publishes_nil : Publishes api reads every [] { publishEvery := every } where
  inner := rfl
  interval := rfl
  counter _ := (Nat.zero_mod every).symm
  version := by
    simp only [touching, List.filter_nil, List.length_nil, Nat.zero_div]
    rfl
  fresh _ := rfl
  latest positive := by simp [touching] at positive

variable {api reads every}

theorem touching_append (seen more : List Event) : touching (seen ++ more) = touching seen ++ touching more :=
  List.filter_append ..

theorem cut_append {seen : List Event} {k : Nat} (within : k * every ≤ (touching seen).length) (more : List Event) :
    cut api every (seen ++ more) k = cut api every seen k := by
  rw [cut, cut, touching_append, List.take_append_of_le_length within]

theorem publishes_other {seen : List Event} {h : PublishingHandler B} (publishes : Publishes api reads every seen h)
    {e : Event} (other : e.decoded = false) :
    Publishes api reads every (seen ++ [e]) (PublishingHandler.handler api reads e h) := by
  have same : touching (seen ++ [e]) = touching seen := by simp [touching, other]
  have kept (k : Nat) : cut api every (seen ++ [e]) k = cut api every seen k := by rw [cut, cut, same]
  rw [PublishingHandler.handler_other api reads other]
  refine ⟨?_, publishes.interval, ?_, ?_, ?_, ?_⟩
  · rw [BookBuilder.build_append, ← publishes.inner]
  all_goals rw [same]
  · exact publishes.counter
  · exact publishes.version
  · exact publishes.fresh
  · rw [kept]
    exact publishes.latest

theorem publishes_counted {seen : List Event} {h : PublishingHandler B} (publishes : Publishes api reads every seen h)
    {e : Event} (decoded : e.decoded = true)
    (quotient : ((touching seen).length + 1) / every = (touching seen).length / every)
    {since : Nat} (counter : every ≠ 0 → since = ((touching seen).length + 1) % every) :
    Publishes api reads every (seen ++ [e])
      { h with inner := BookBuilder.handler api e h.inner, sincePublish := since } := by
  have longer : (touching (seen ++ [e])).length = (touching seen).length + 1 := by simp [touching, decoded]
  have within : (touching seen).length / every * every ≤ (touching seen).length := Nat.div_mul_le_self _ _
  refine ⟨?_, publishes.interval, ?_, ?_, ?_, ?_⟩
  · rw [BookBuilder.build_append, ← publishes.inner]
  all_goals rw [longer]
  · exact counter
  all_goals rw [quotient]
  · exact publishes.version
  · exact publishes.fresh
  · rw [cut_append within]
    exact publishes.latest

theorem publishes_completed {seen : List Event} {h : PublishingHandler B}
    (publishes : Publishes api reads every seen h) {e : Event} (positive : 0 < every)
    (whole : (touching (seen ++ [e])).length = every * ((touching seen).length / every + 1)) :
    Publishes api reads every (seen ++ [e])
      (PublishingHandler.publish reads
        { h with inner := BookBuilder.handler api e h.inner, sincePublish := 0 }) := by
  have next : (touching (seen ++ [e])).length / every = (touching seen).length / every + 1 := by
    rw [whole, Nat.mul_div_cancel_left _ positive]
  have built : BookBuilder.handler api e h.inner = BookBuilder.build api (seen ++ [e]) := by
    rw [BookBuilder.build_append, ← publishes.inner]
  have all : cut api every (seen ++ [e]) ((touching seen).length / every + 1) =
      BookBuilder.build api (touching (seen ++ [e])) := by
    rw [cut, Nat.mul_comm, ← whole, List.take_length]
  rw [PublishingHandler.publish, built]
  refine ⟨rfl, publishes.interval, fun _ => ?_, ?_, fun zero => ?_, fun _ => ?_⟩
  · rw [whole, Nat.mul_mod_right]
  · rw [next, UInt64.ofNat_add, ← publishes.version]
    rfl
  · rw [next] at zero
    exact absurd zero (Nat.succ_ne_zero _)
  · rw [next, all]
    exact (publish_describes api reads h.store (seen ++ [e])).alike reads (build_touching api (seen ++ [e]))

theorem publishes_decoded {seen : List Event} {h : PublishingHandler B} (publishes : Publishes api reads every seen h)
    {e : Event} (decoded : e.decoded = true) :
    Publishes api reads every (seen ++ [e]) (PublishingHandler.handler api reads e h) := by
  have longer : (touching (seen ++ [e])).length = (touching seen).length + 1 := by simp [touching, decoded]
  obtain rfl : h.publishEvery = every := publishes.interval
  rw [PublishingHandler.handler_decoded api reads decoded, PublishingHandler.maybePublish]
  by_cases never : h.publishEvery = 0
  · rw [if_pos never]
    exact publishes_counted publishes decoded (by simp [never]) fun nonzero => absurd never nonzero
  · have counter := publishes.counter never
    have positive := Nat.pos_of_ne_zero never
    have parts := Nat.div_add_mod (touching seen).length h.publishEvery
    have remainder := Nat.mod_lt (touching seen).length positive
    rw [if_neg never]
    dsimp only
    by_cases counted : h.sincePublish + 1 < h.publishEvery
    · have split : (touching seen).length + 1 =
          h.publishEvery * ((touching seen).length / h.publishEvery) + (h.sincePublish + 1) := by omega
      rw [if_pos counted]
      refine publishes_counted publishes decoded ?_ fun _ => ?_
      · rw [split, Nat.mul_add_div positive, Nat.div_eq_of_lt counted, Nat.add_zero]
      · rw [split, Nat.mul_add_mod, Nat.mod_eq_of_lt counted]
    · rw [if_neg counted]
      refine publishes_completed publishes positive ?_
      rw [longer, Nat.mul_succ]
      omega

variable (api reads every)

theorem publishes_seen (seen : List Event) :
    Publishes api reads every seen
      (seen.foldl (fun h e => PublishingHandler.handler api reads e h) { publishEvery := every }) := by
  induction seen using List.reverseRecOn with
  | nil => exact publishes_nil api reads every
  | append_singleton seen e ih =>
    rw [List.foldl_append, List.foldl_cons, List.foldl_nil]
    cases decoded : e.decoded with
    | true => exact publishes_decoded ih decoded
    | false => exact publishes_other ih decoded

/-- Published snapshots are exact cuts of the replay. The inner builder ends as if
nothing were published; whatever messages have been seen, the store holds the cut at
the last multiple of publish_every within them, and its version is how many multiples
there were; the final publish adds the final state. -/
theorem snapshots_are_cuts (data : List UInt8) (size : data.length < 2 ^ 64) :
    (PublishingHandler.run api reads every data).1.inner = (parseStream (BookBuilder.handler api) data {}).1 ∧
    (PublishingHandler.run api reads every data).2 = (parseStream (BookBuilder.handler api) data {}).2 ∧
    (∀ seen, seen <+: events data →
      let store := (seen.foldl (fun h e => PublishingHandler.handler api reads e h) { publishEvery := every }).store
      let k := (touching seen).length / every
      store.version.toNat = k ∧ (k = 0 → store = {}) ∧
        (0 < k → Describes reads store (cut api every (events data) k))) ∧
    Describes reads (PublishingHandler.run api reads every data).1.store
      (parseStream (BookBuilder.handler api) data {}).1 ∧
    (PublishingHandler.run api reads every data).1.store.version.toNat =
      (touching (events data)).length / every + 1 := by
  have bounded (seen : List Event) (within : seen <+: events data) :
      (touching seen).length / every < 2 ^ 64 - 1 := by
    have fewer : (touching seen).length ≤ (events data).length :=
      Nat.le_trans (List.length_filter_le ..) within.length_le
    have frames := Framing.frames_length data
    have quotient := Nat.div_le_self (touching seen).length every
    rw [events, List.length_map] at fewer
    omega
  have parsed : parseStream (PublishingHandler.handler api reads) data { publishEvery := every } =
      ((events data).foldl (fun h e => PublishingHandler.handler api reads e h) { publishEvery := every },
        (events data).length) := parseStream_events ..
  have final := publishes_seen api reads every (events data)
  rw [BookBuilder.parseStream_build, PublishingHandler.run, parsed]
  refine ⟨final.inner, rfl, fun seen within => ?_, ?_, ?_⟩
  · have state := publishes_seen api reads every seen
    refine ⟨?_, state.fresh, fun positive => ?_⟩
    · rw [state.version, UInt64.toNat_ofNat_of_lt' (Nat.lt_of_lt_of_le (bounded seen within) (by decide))]
    · obtain ⟨more, whole⟩ := within
      rw [← whole, cut_append (Nat.div_mul_le_self _ _)]
      exact state.latest positive
  · rw [PublishingHandler.publish, final.inner]
    exact publish_describes api reads _ (events data)
  · have room := bounded (events data) List.prefix_rfl
    have count : (UInt64.ofNat ((touching (events data)).length / every)).toNat =
        (touching (events data)).length / every := UInt64.toNat_ofNat_of_lt' (Nat.lt_of_lt_of_le room (by decide))
    rw [PublishingHandler.publish, SnapshotStore.publish, final.version, UInt64.toNat_add, count]
    exact Nat.mod_eq_of_lt (Nat.add_lt_of_lt_sub room)

end Cuts

-- Three deletes and a message the book does not read, published every second one.
theorem snapshots_are_cuts_deletes :
    (PublishingHandler.run orderBook orderBookReads 2
      (List.flatten ([68, 68, 83, 68].map fun type => Framing.frame (type :: List.replicate 18 0)))).1.store.version =
        2 := by
  have count := (snapshots_are_cuts orderBook orderBookReads 2
    (List.flatten ([68, 68, 83, 68].map fun type => Framing.frame (type :: List.replicate 18 0)))
    (by simp [Framing.frame])).2.2.2.2
  rw [← UInt64.toNat_inj, count]
  decide +kernel

end ItchLob.Pipeline
