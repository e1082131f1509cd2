import ItchLob.Itch.Encode
import ItchLob.Pipeline.ReplayReport
import ItchLob.Pipeline.SaneOrders
import ItchLob.Shared.Pool

set_option autoImplicit false

namespace ItchLob.Bench

open Itch Book FiniteMap Pipeline Pool
open Itch.Encode (Message)

def kNumSymbols : Nat := 9
def kTotalMessages : Nat := 2200000
def kTickSize : UInt32 := 100

structure Rng (G : Type) where
  uniform : Int → Int → G → Int × G
  discrete : List Nat → G → Nat × G
  uniform_within : ∀ a b g, a ≤ b → a ≤ (uniform a b g).1 ∧ (uniform a b g).1 ≤ b
  discrete_within : ∀ weights g, weights ≠ [] → (discrete weights g).1 < weights.length

structure SymbolSpec where
  ticker : List UInt8
  midPrice : UInt32

def kSymbols : List SymbolSpec :=
  [⟨"AAPL".toUTF8.toList, 1500000⟩, ⟨"MSFT".toUTF8.toList, 4200000⟩, ⟨"AMZN".toUTF8.toList, 1785000⟩,
    ⟨"GOOGL".toUTF8.toList, 1418000⟩, ⟨"META".toUTF8.toList, 5052500⟩, ⟨"NFLX".toUTF8.toList, 6250000⟩,
    ⟨"TSLA".toUTF8.toList, 2485000⟩, ⟨"NVDA".toUTF8.toList, 1187500⟩, ⟨"AMD".toUTF8.toList, 1672000⟩]

structure OpenOrder where
  ref : UInt64
  side : Side
  price : UInt32
  shares : UInt32

inductive MsgType where
  | A
  | E
  | C
  | X
  | D
  | U
  deriving DecidableEq, Repr

def kMsgTypes : List MsgType := [.A, .E, .C, .X, .D, .U]
def kMsgWeights : List Nat := [55, 17, 5, 13, 6, 4]

-- `scaled mid bps` is static_cast<uint32_t>(double(mid) * (1.0 + bps / 10000.0)).
variable {G : Type} (R : Rng G) (scaled : UInt32 → Int → UInt32)

def wigglePrice (mid : UInt32) (g : G) : UInt32 × G :=
  let bps := R.uniform (-500) 500 g
  (scaled mid bps.1 / kTickSize * kTickSize, bps.2)

def lotShares (g : G) : UInt32 × G :=
  let lots := R.uniform 1 20 g
  (UInt32.ofNat (lots.1 * 100).toNat, lots.2)

def quantity (o : OpenOrder) (g : G) : UInt32 × G :=
  let amt := R.uniform 1 o.shares.toNat g
  (UInt32.ofNat amt.1.toNat, amt.2)

structure Symbol where
  locate : UInt16 := 0
  ticker : List UInt8 := []
  midPrice : UInt32 := 0
  openOrders : List OpenOrder := []

structure Drawn (G : Type) where
  message : Message
  openOrders : List OpenOrder
  nextRef : UInt64
  nextMatch : UInt64
  rng : G

-- o.shares -= qty, and the order leaves the pool when nothing is left.
def taken (pool : List OpenOrder) (idx : Nat) (o : OpenOrder) (qty : UInt32) : List OpenOrder :=
  if o.shares - qty = 0 then swapRemove pool idx else pool.set idx { o with shares := o.shares - qty }

section Draw

variable (sym : Symbol) (ts nextRef nextMatch : UInt64)

def drawAdd (g : G) : Drawn G :=
  let side := R.uniform 0 1 g
  let price := wigglePrice R scaled sym.midPrice side.2
  let shares := lotShares R price.2
  let o : OpenOrder := ⟨nextRef, if side.1 = 0 then Side.buy else Side.sell, price.1, shares.1⟩
  { message := .addOrder sym.locate ts nextRef o.side shares.1 sym.ticker price.1
    openOrders := sym.openOrders ++ [o]
    nextRef := nextRef + 1
    nextMatch
    rng := shares.2 }

-- The switch. It is not reached with 'A'.
def drawOn (t : MsgType) (idx : Nat) (o : OpenOrder) (g : G) : Drawn G :=
  match t with
  | .A => drawAdd R scaled sym ts nextRef nextMatch g
  | .E =>
    let qty := quantity R o g
    { message := .executed sym.locate ts o.ref qty.1 nextMatch
      openOrders := taken sym.openOrders idx o qty.1
      nextRef
      nextMatch := nextMatch + 1
      rng := qty.2 }
  | .C =>
    let qty := quantity R o g
    let printable := R.uniform 0 1 qty.2
    { message := .executedPrice sym.locate ts o.ref qty.1 nextMatch (printable.1 = 0) o.price
      openOrders := taken sym.openOrders idx o qty.1
      nextRef
      nextMatch := nextMatch + 1
      rng := printable.2 }
  | .X =>
    let qty := quantity R o g
    { message := .cancel sym.locate ts o.ref qty.1
      openOrders := taken sym.openOrders idx o qty.1
      nextRef
      nextMatch
      rng := qty.2 }
  | .D =>
    { message := .del sym.locate ts o.ref
      openOrders := swapRemove sym.openOrders idx
      nextRef
      nextMatch
      rng := g }
  | .U =>
    let price := wigglePrice R scaled sym.midPrice g
    let shares := lotShares R price.2
    { message := .replace sym.locate ts o.ref nextRef shares.1 price.1
      openOrders := swapRemove sym.openOrders idx ++ [⟨nextRef, o.side, price.1, shares.1⟩]
      nextRef := nextRef + 1
      nextMatch
      rng := shares.2 }

def msgType (g : G) : MsgType × G :=
  if sym.openOrders = [] then (.A, g)
  else
    let picked := R.discrete kMsgWeights g
    (kMsgTypes.getD picked.1 .A, picked.2)

def draw (g : G) : Drawn G :=
  let t := msgType R sym g
  if t.1 = .A then drawAdd R scaled sym ts nextRef nextMatch t.2
  else
    let idx := R.uniform 0 (sym.openOrders.length - 1) t.2
    let o := sym.openOrders.getD idx.1.toNat ⟨0, Side.buy, 0, 0⟩
    drawOn R scaled sym ts nextRef nextMatch t.1 idx.1.toNat o idx.2

end Draw

structure Session (G : Type) where
  rng : G
  symbols : List Symbol
  raw : List UInt8 := []
  nextRef : UInt64 := 1
  nextMatch : UInt64 := 1

def kBaseTs : UInt64 := 34200000000000
def kTsStep : UInt64 := 9000000

def opened (g : G) : Session G :=
  { rng := g
    symbols := kSymbols.zipIdx.map fun spec =>
      { locate := UInt16.ofNat spec.2, ticker := spec.1.ticker, midPrice := spec.1.midPrice } }

def Session.put (s : Session G) (k : Nat) (sym : Symbol) (d : Drawn G) : Session G :=
  { rng := d.rng
    symbols := s.symbols.set k { sym with openOrders := d.openOrders }
    raw := Encode.frame s.raw d.message.encode
    nextRef := d.nextRef
    nextMatch := d.nextMatch }

def turn (s : Session G) (i : Nat) : Session G :=
  let pick := R.uniform 0 (kNumSymbols - 1) s.rng
  let sym := s.symbols.getD pick.1.toNat {}
  let ts := kBaseTs + UInt64.ofNat i * kTsStep
  s.put pick.1.toNat sym (draw R scaled sym ts s.nextRef s.nextMatch pick.2)

def session (n : Nat) (g : G) : Session G := (List.range n).foldl (turn R scaled) (opened g)

def generateSyntheticSession (g : G) : List UInt8 := (session R scaled kTotalMessages g).raw

-- With its arguments on both sides the kernel would check this by running the loop.
theorem generateSyntheticSession_eq :
    @generateSyntheticSession G = fun R scaled g => (session R scaled kTotalMessages g).raw := by
  delta generateSyntheticSession
  with_reducible rfl

def Listed (price : UInt32) : Prop :=
  price.toNat % 100 = 0 ∧ 500000 ≤ price.toNat ∧ price.toNat ≤ 12500000

/-- Scaling by at most five percent neither halves nor doubles a price. -/
def Scales (scaled : UInt32 → Int → UInt32) : Prop :=
  ∀ mid bps, mid.toNat < 2 ^ 31 → -500 ≤ bps → bps ≤ 500 →
    mid.toNat / 2 ≤ (scaled mid bps).toNat ∧ (scaled mid bps).toNat ≤ 2 * mid.toNat

def Quoted (mid : UInt32) : Prop := 1187500 ≤ mid.toNat ∧ mid.toNat ≤ 6250000

section Drawing

variable {R scaled}

theorem wigglePrice_listed (scales : Scales scaled) {mid : UInt32} (quoted : Quoted mid) (g : G) :
    Listed (wigglePrice R scaled mid g).1 := by
  have bps := R.uniform_within (-500) 500 g (by decide)
  obtain ⟨least, most⟩ := scales mid (R.uniform (-500) 500 g).1 (by have := quoted.2; omega) bps.1 bps.2
  have floor : (wigglePrice R scaled mid g).1.toNat =
      (scaled mid (R.uniform (-500) 500 g).1).toNat / 100 * 100 := by
    rw [wigglePrice, UInt32.toNat_mul, UInt32.toNat_div]
    exact Nat.mod_eq_of_lt (by have := (scaled mid (R.uniform (-500) 500 g).1).toNat_lt; simp [kTickSize]; omega)
  obtain ⟨low, high⟩ := quoted
  rw [Listed, floor]
  omega

theorem lotShares_positive (g : G) : 0 < (lotShares R g).1.toNat := by
  have lots := R.uniform_within 1 20 g (by decide)
  rw [lotShares, UInt32.toNat_ofNat', Nat.mod_eq_of_lt (by omega)]
  omega

theorem quantity_within {o : OpenOrder} (positive : 0 < o.shares.toNat) (g : G) :
    0 < (quantity R o g).1.toNat ∧ (quantity R o g).1.toNat ≤ o.shares.toNat := by
  have amt := R.uniform_within 1 o.shares.toNat g (by omega)
  have bound := o.shares.toNat_lt
  rw [quantity, UInt32.toNat_ofNat', Nat.mod_eq_of_lt (by omega)]
  omega

end Drawing

def OpenOrder.order (o : OpenOrder) : Order := ⟨o.shares, o.price, o.side⟩

structure Pooled (pool : List OpenOrder) (orders : Orders) (nextRef : UInt64) : Prop where
  mirrors : Mirrors OpenOrder.ref OpenOrder.order pool orders
  sized : ∀ o ∈ pool, 0 < o.shares.toNat
  dated : ∀ o ∈ pool, o.ref.toNat < nextRef.toNat

section Pools

variable {pool other : List OpenOrder} {orders : Orders} {nextRef newer : UInt64} {o : OpenOrder}

theorem Pooled.perm (pooled : Pooled pool orders nextRef) (same : pool.Perm other) : Pooled other orders nextRef :=
  ⟨pooled.mirrors.perm same, fun o inside => pooled.sized o (same.mem_iff.mpr inside),
    fun o inside => pooled.dated o (same.mem_iff.mpr inside)⟩

theorem Pooled.later (pooled : Pooled pool orders nextRef) (after : nextRef.toNat ≤ newer.toNat) :
    Pooled pool orders newer :=
  ⟨pooled.mirrors, pooled.sized, fun o inside => (pooled.dated o inside).trans_le after⟩

theorem next_toNat {nextRef : UInt64} (room : nextRef.toNat + 1 < 2 ^ 64) :
    (nextRef + 1).toNat = nextRef.toNat + 1 := by
  rw [UInt64.toNat_add]
  exact Nat.mod_eq_of_lt room

theorem Pooled.add (pooled : Pooled pool orders nextRef) (dated : o.ref = nextRef) (positive : 0 < o.shares.toNat)
    (room : nextRef.toNat + 1 < 2 ^ 64) :
    orders.lookup o.ref = none ∧ Pooled (pool ++ [o]) (orders.insert o.ref o.order) (nextRef + 1) := by
  have next := next_toNat room
  have fresh : ∀ p ∈ pool, p.ref ≠ o.ref := fun p inside same => by
    have before := pooled.dated p inside
    rw [same, dated] at before
    exact Nat.lt_irrefl _ before
  refine ⟨pooled.mirrors.absent fresh, Pooled.perm ⟨pooled.mirrors.insert fresh, ?_, ?_⟩
    (List.perm_append_singleton o pool).symm⟩
  · rw [List.forall_mem_cons]
    exact ⟨positive, pooled.sized⟩
  · rw [List.forall_mem_cons, dated, next]
    exact ⟨Nat.lt_succ_self _, fun p inside => (pooled.dated p inside).trans (Nat.lt_succ_self _)⟩

variable {idx : Nat} (pooled : Pooled pool orders nextRef) (here : pool[idx]? = some o)
include pooled here

theorem Pooled.found : orders.lookup o.ref = some o.order :=
  (pooled.perm (swapRemove_perm here)).mirrors.found

theorem Pooled.swapRemove : Pooled (swapRemove pool idx) (orders.erase o.ref) nextRef := by
  have first := pooled.perm (swapRemove_perm here)
  exact ⟨first.mirrors.erase, fun p inside => first.sized p (List.mem_cons_of_mem o inside),
    fun p inside => first.dated p (List.mem_cons_of_mem o inside)⟩

theorem Pooled.reduce {qty : UInt32} (within : qty.toNat ≤ o.shares.toNat) :
    (Naive.reduce (⟨orders, ()⟩ : Naive Unit) o.ref qty).1 = true ∧
      Pooled (taken pool idx o qty) (Naive.reduce (⟨orders, ()⟩ : Naive Unit) o.ref qty).2.orders nextRef := by
  have exact : min qty o.shares = qty := if_pos (UInt32.le_iff_toNat_le.mpr within)
  have found := pooled.found here
  simp only [Naive.reduce, found, OpenOrder.order, exact, taken]
  by_cases gone : o.shares - qty = 0
  · rw [if_pos gone, if_pos gone]
    exact ⟨rfl, pooled.swapRemove here⟩
  · rw [if_neg gone, if_neg gone]
    have first := pooled.perm (swapRemove_perm here)
    have left : 0 < (o.shares - qty).toNat := by
      refine Nat.pos_of_ne_zero fun none => gone (UInt32.toNat_inj.mp ?_)
      rw [none]
      rfl
    let o' : OpenOrder := { o with shares := o.shares - qty }
    refine ⟨rfl, Pooled.perm ⟨first.mirrors.update (b := o') rfl, ?_, ?_⟩ ?_⟩
    · rw [List.forall_mem_cons]
      exact ⟨left, fun p inside => first.sized p (List.mem_cons_of_mem o inside)⟩
    · rw [List.forall_mem_cons]
      exact ⟨first.dated o List.mem_cons_self, fun p inside => first.dated p (List.mem_cons_of_mem o inside)⟩
    · have both := (set_perm here o').trans ((swapRemove_perm here).cons o')
      exact ((List.Perm.swap o o' _).symm.trans both.symm).cons_inv

end Pools

def priceOf : Call → Option UInt32
  | .add _ _ _ price => some price
  | .replace _ _ _ price => some price
  | _ => none

structure Applies (sym : Symbol) (orders : Orders) (ts nextRef : UInt64) (d : Drawn G) : Prop where
  stamp : d.message.timestamp = ts
  next : nextRef.toNat ≤ d.nextRef.toNat ∧ d.nextRef.toNat ≤ nextRef.toNat + 1
  call : ∃ r, BookBuilder.request d.message.callback = some r ∧ r.locate = sym.locate ∧
    (∀ p, priceOf r.call = some p → Listed p) ∧
    (Naive.call Gate.free (⟨orders, ()⟩ : Naive Unit) r.call).1 = true ∧
      Pooled d.openOrders (Naive.call Gate.free (⟨orders, ()⟩ : Naive Unit) r.call).2.orders d.nextRef

section Applied

variable {R scaled} (scales : Scales scaled) {sym : Symbol} {orders : Orders} {ts nextRef nextMatch : UInt64}
  (quoted : Quoted sym.midPrice) (pooled : Pooled sym.openOrders orders nextRef)
  (room : nextRef.toNat + 1 < 2 ^ 64)
include scales quoted pooled room

theorem drawAdd_applies (g : G) :
    Applies sym orders ts nextRef (drawAdd R scaled sym ts nextRef nextMatch g) := by
  have price := wigglePrice_listed (R := R) scales quoted (R.uniform 0 1 g).2
  have shares := lotShares_positive (R := R) (wigglePrice R scaled sym.midPrice (R.uniform 0 1 g).2).2
  refine ⟨rfl, ?_, _, rfl, rfl, fun p same => ?_, ?_⟩
  · simp only [drawAdd, next_toNat room]
    omega
  · obtain rfl := Option.some.inj same
    exact price
  · obtain ⟨absent, next⟩ := pooled.add (o := ⟨nextRef, if (R.uniform 0 1 g).1 = 0 then Side.buy else Side.sell,
      (wigglePrice R scaled sym.midPrice (R.uniform 0 1 g).2).1, _⟩) rfl shares room
    simp only [drawAdd, Naive.call, Naive.add, Gate.free, if_true, absent]
    exact ⟨trivial, next⟩

theorem drawOn_applies (t : MsgType) {idx : Nat} {o : OpenOrder} (here : sym.openOrders[idx]? = some o) (g : G) :
    Applies sym orders ts nextRef (drawOn R scaled sym ts nextRef nextMatch t idx o g) := by
  have positive := pooled.sized o (List.mem_of_getElem? here)
  have found := pooled.found here
  cases t with
  | A => exact drawAdd_applies scales quoted pooled room g
  | E | C | X =>
    refine ⟨rfl, ⟨Nat.le_refl _, Nat.le_succ _⟩, _, rfl, rfl, fun p same => (by cases same), ?_⟩
    exact pooled.reduce here (quantity_within positive g).2
  | D =>
    refine ⟨rfl, ⟨Nat.le_refl _, Nat.le_succ _⟩, _, rfl, rfl, fun p same => (by cases same), ?_⟩
    simp only [drawOn, Naive.call, Naive.remove, found]
    exact ⟨trivial, pooled.swapRemove here⟩
  | U =>
    have price := wigglePrice_listed (R := R) scales quoted g
    have shares := lotShares_positive (R := R) (wigglePrice R scaled sym.midPrice g).2
    refine ⟨rfl, ?_, _, rfl, rfl, fun p same => ?_, ?_⟩
    · simp only [drawOn, next_toNat room]
      omega
    · obtain rfl := Option.some.inj same
      exact price
    · obtain ⟨absent, next⟩ := (pooled.swapRemove here).add
        (o := ⟨nextRef, o.side, (wigglePrice R scaled sym.midPrice g).1, _⟩) rfl shares room
      simp only [drawOn, Naive.call, Naive.replace, found, Naive.add, Gate.free, if_true, OpenOrder.order, absent]
      exact ⟨trivial, next⟩

variable (ts nextMatch) in
theorem draw_applies (g : G) : Applies sym orders ts nextRef (draw R scaled sym ts nextRef nextMatch g) := by
  unfold draw
  dsimp only
  split
  next => exact drawAdd_applies scales quoted pooled room _
  next other =>
    have some : sym.openOrders ≠ [] := fun none => other (by rw [msgType, if_pos none])
    have many := List.length_pos_of_ne_nil some
    have idx := R.uniform_within 0 (sym.openOrders.length - 1) (msgType R sym g).2 (by omega)
    refine drawOn_applies scales quoted pooled room _ ?_ _
    rw [List.getD_eq_getElem?_getD]
    have inside : (R.uniform 0 (sym.openOrders.length - 1) (msgType R sym g).2).1.toNat < sym.openOrders.length := by
      omega
    rw [List.getElem?_eq_getElem inside, Option.getD_some]

end Applied

def Mapped {B : Type} (orders : B → Orders) (b : B) (after : Bool × B) (c : Call) : Prop :=
  let map := Naive.call Gate.free (⟨orders b, ()⟩ : Naive Unit) c
  after.1 = map.1 ∧ orders after.2 = map.2.orders

section Locators

variable {B : Type} {L : Locator B} (set : ∀ b orders, L.orders (L.setOrders b orders) = orders)
  (sub : ∀ b side price shares gone, L.orders (L.levelSub b side price shares gone) = L.orders b)
include set sub

theorem remove_mapped (b : B) (ref : UInt64) : Mapped L.orders b (L.remove b ref) (.remove ref) := by
  simp only [Mapped, Locator.remove, Naive.call, Naive.remove]
  cases (L.orders b).lookup ref with
  | none => exact ⟨rfl, rfl⟩
  | some o => exact ⟨rfl, by rw [sub, set]⟩

theorem reduce_mapped (b : B) (ref : UInt64) (shares : UInt32) :
    Mapped L.orders b (L.reduce b ref shares) (.execute ref shares) ∧
      Mapped L.orders b (L.reduce b ref shares) (.cancel ref shares) := by
  suffices same : Mapped L.orders b (L.reduce b ref shares) (.execute ref shares) from ⟨same, same⟩
  simp only [Mapped, Locator.reduce, Naive.call, Naive.reduce, clamp_eq_min]
  cases (L.orders b).lookup ref with
  | none => exact ⟨rfl, rfl⟩
  | some o =>
    by_cases gone : o.shares - min shares o.shares = 0
    · simp only [gone, decide_true, if_true, sub, set, and_self]
    · simp only [gone, decide_false, Bool.false_eq_true, if_false, sub, set, and_self]

theorem replace_mapped {add : B → UInt64 → Side → UInt32 → UInt32 → Bool × B} {price : UInt32}
    (adds : ∀ b ref side shares, Mapped L.orders b (add b ref side shares price) (.add ref side shares price))
    (b : B) (orig next : UInt64) (shares : UInt32) :
    Mapped L.orders b (L.replace add b orig next shares price) (.replace orig next shares price) := by
  have removed := (remove_mapped set sub b orig).2
  simp only [Mapped, Locator.replace, Naive.call, Naive.replace, Naive.remove] at adds removed ⊢
  cases found : (L.orders b).lookup orig with
  | none => exact ⟨rfl, rfl⟩
  | some o =>
    rw [found] at removed
    have added := adds (L.remove b orig).2 next o.side shares
    rw [removed] at added
    exact added

end Locators

/-- For calls at listed prices a book of this type, in any state it reaches by
them, answers as its order map does. -/
structure Serves {B : Type} (api : BookType B) (orders : B → Orders) (ok : B → Prop) : Prop where
  fresh : ∀ hint, ok (api.make hint) ∧ orders (api.make hint) = ∅
  call : ∀ b c, ok b → (∀ p, priceOf c = some p → Listed p) →
    Mapped orders b (api.call b c) c ∧ ok (api.call b c).2

theorem orderBook_serves : Serves orderBook OrderBook.orders fun _ => True := by
  have set := OrderBook.locator_sound.orders_set
  have sub := OrderBook.locator_sound.orders_sub
  have adds (b : OrderBook) (ref : UInt64) (side : Side) (shares price : UInt32) :
      Mapped OrderBook.orders b (b.add ref side shares price) (.add ref side shares price) := by
    simp only [Mapped, OrderBook.add, Naive.call, Naive.add, Gate.free, if_true]
    cases b.orders.lookup ref with
    | some o => exact ⟨rfl, rfl⟩
    | none => by_cases buy : side = Side.buy <;> simp [buy]
  refine ⟨fun _ => ⟨trivial, rfl⟩, fun b c _ _ => ⟨?_, trivial⟩⟩
  rw [orderBook_call]
  cases c with
  | add ref side shares price => exact adds b ref side shares price
  | execute ref shares => exact (reduce_mapped set sub b ref shares).1
  | cancel ref shares => exact (reduce_mapped set sub b ref shares).2
  | remove ref => exact remove_mapped set sub b ref
  | replace orig next shares price =>
    exact replace_mapped set sub (fun b ref side shares => adds b ref side shares price) b orig next shares

theorem Listed.sane {price : UInt32} (listed : Listed price) : Sane price :=
  ⟨listed.1, by have := listed.2.1; omega, UInt32.le_iff_toNat_le.mpr (by
    have := listed.2.2
    change price.toNat ≤ 100000000
    omega)⟩

abbrev productionLedger : Locator Ledger := Ledger.locator LadderTraits.kTickSize.toNat

theorem ledger_mapped {l : Ledger} {admitted : UInt32 → Bool} {c : Call}
    (admits : ∀ p, priceOf c = some p → admitted p = true) :
    Mapped Ledger.orders l (l.call LadderTraits.kTickSize.toNat admitted c) c := by
  have adds (l : Ledger) {price : UInt32} (passes : admitted price = true) (ref : UInt64) (side : Side)
      (shares : UInt32) :
      Mapped Ledger.orders l (l.add LadderTraits.kTickSize.toNat admitted ref side shares price)
        (.add ref side shares price) := by
    simp only [Mapped, Ledger.add, Naive.call, Naive.add, Gate.free, if_true, passes]
    cases l.orders.lookup ref with
    | some o => exact ⟨rfl, rfl⟩
    | none => exact ⟨rfl, rfl⟩
  have set (l : Ledger) (orders : Orders) :
      productionLedger.orders (productionLedger.setOrders l orders) = orders := rfl
  have sub (l : Ledger) (side : Side) (price shares : UInt32) (gone : Bool) :
      productionLedger.orders (productionLedger.levelSub l side price shares gone) = l.orders := rfl
  cases c with
  | add ref side shares price => exact adds l (admits price rfl) ref side shares
  | execute ref shares => exact (reduce_mapped set sub l ref shares).1
  | cancel ref shares => exact (reduce_mapped set sub l ref shares).2
  | remove ref => exact remove_mapped set sub l ref
  | replace orig next shares price =>
    exact replace_mapped set sub (fun l ref side shares => adds l (admits price rfl) ref side shares) l orig next
      shares

theorem production_serves : Serves production LadderBook.orders fun b => Ranged b ∧ Ample b.range := by
  constructor
  · intro hint
    obtain ⟨b, l, built, empty, shows⟩ :=
      LadderBook.construct_shows LadderTraits.kTickSize (LadderTraits.base hint) LadderBook.thirty_narrow
    have made : production.make hint = b := Option.get_of_eq_some _ built
    refine ⟨ranged_fresh hint, ?_⟩
    rw [made, shows.orders, empty]
  · rintro b c ⟨ranged, ample⟩ listed
    rw [production, ladderBook_call]
    refine ⟨?_, (ranged.call c).1, ?_⟩
    · obtain ⟨l, shows⟩ := ranged
      obtain ⟨answer, next⟩ := shows.call kTickSize_pos LadderBook.thirty_narrow c
      have mapped := ledger_mapped (l := l) (c := c) fun p asks => ample.admits (listed p asks).sane
      rw [Mapped, answer, next.orders, shows.orders]
      exact mapped
    · rw [(ranged.call c).2]
      cases asks : priceAsked b c with
      | none => exact ample
      | some p =>
        refine ample.moved (low_price_fits ?_)
        have same : priceOf c = some p := by
          cases c with
          | replace orig next shares price =>
            rw [priceAsked] at asks
            split at asks
            · exact asks
            · cases asks
          | _ => exact asks
        have := (listed p same).2.2
        omega

section Turns

variable {R scaled} {B : Type} {api : BookType B} {orders : B → Orders} {ok : B → Prop} {s : Session G} {n : Nat}
  {sent : List Message}

def replayed (api : BookType B) (sent : List Message) : BookBuilder B :=
  BookBuilder.build api (sent.map Message.callback)

def bookAt (api : BookType B) (sent : List Message) (locate : UInt16) (hint : UInt32) : B :=
  ((replayed api sent).books.find locate).getD (api.make hint)

/-- The session so far is these messages; replayed, they leave in each symbol's
book what the symbol's pool lists, and no other books. -/
structure Follows (api : BookType B) (orders : B → Orders) (ok : B → Prop) (s : Session G) (n : Nat)
    (sent : List Message) : Prop where
  raw : s.raw = Encode.stream (sent.map Message.encode)
  count : sent.length = n
  clock : ∀ m ∈ sent, m.timestamp.toNat < 2 ^ 48
  unknownRefs : (replayed api sent).unknownRefs = 0
  nextRef : s.nextRef.toNat ≤ n + 1
  symbols : s.symbols.length = kNumSymbols
  place : ∀ (k : Nat) (sym : Symbol), s.symbols[k]? = some sym → sym.locate.toNat = k ∧ Quoted sym.midPrice
  pool : ∀ sym ∈ s.symbols, ∀ hint,
    ok (bookAt api sent sym.locate hint) ∧ Pooled sym.openOrders (orders (bookAt api sent sym.locate hint)) s.nextRef
  nowhere : ∀ locate b, (replayed api sent).books.find locate = some b → locate.toNat < kNumSymbols

theorem opened_place (g : G) : ∀ (k : Nat) (sym : Symbol), (opened g).symbols[k]? = some sym →
    sym.locate.toNat = k ∧ Quoted sym.midPrice ∧ sym.openOrders = [] := by
  intro k sym here
  have inside : k < 9 := (List.getElem?_eq_some_iff.mp here).1
  interval_cases k <;> obtain rfl := Option.some.inj here <;> exact ⟨rfl, by unfold Quoted; decide, rfl⟩

theorem opened_follows (serves : Serves api orders ok) (g : G) : Follows api orders ok (opened g) 0 [] := by
  have fresh (locate : UInt16) : (replayed api []).books.find locate = none := rfl
  refine ⟨rfl, rfl, fun m inside => (by cases inside), rfl, Nat.le_refl _, rfl, fun k sym here => ?_,
    fun sym inside hint => ?_, fun locate b found => ?_⟩
  · obtain ⟨place, quoted, -⟩ := opened_place g k sym here
    exact ⟨place, quoted⟩
  · obtain ⟨k, here⟩ := List.getElem?_of_mem inside
    obtain ⟨-, -, empty⟩ := opened_place g k sym here
    rw [bookAt, fresh, Option.getD_none, empty, (serves.fresh hint).2]
    exact ⟨(serves.fresh hint).1, mirrors_empty, fun o inside => (by cases inside), fun o inside => (by cases inside)⟩
  · rw [fresh] at found
    cases found

theorem bookAt_orders (serves : Serves api orders ok) (sent : List Message) (locate : UInt16) (hint hint' : UInt32) :
    orders (bookAt api sent locate hint) = orders (bookAt api sent locate hint') := by
  unfold bookAt
  cases (replayed api sent).books.find locate with
  | some b => rfl
  | none => exact (serves.fresh hint).2.trans (serves.fresh hint').2.symm

theorem ts_early (early : n < kTotalMessages) : (kBaseTs + UInt64.ofNat n * kTsStep).toNat < 2 ^ 48 := by
  have most : n < 2200000 := early
  rw [UInt64.toNat_add, UInt64.toNat_mul, UInt64.toNat_ofNat']
  change (34200000000000 + n % 2 ^ 64 * 9000000 % 2 ^ 64) % 2 ^ 64 < 2 ^ 48
  rw [Nat.mod_eq_of_lt (show n < 2 ^ 64 by omega), Nat.mod_eq_of_lt (show n * 9000000 < 2 ^ 64 by omega),
    Nat.mod_eq_of_lt (show 34200000000000 + n * 9000000 < 2 ^ 64 by omega)]
  omega

theorem replayed_append (api : BookType B) (sent : List Message) (m : Message) :
    replayed api (sent ++ [m]) = BookBuilder.handler api m.callback (replayed api sent) := by
  rw [replayed, List.map_append, List.map_singleton, BookBuilder.build_append]
  rfl

section Sent

variable {m : Message} {r : BookBuilder.Request} (asks : BookBuilder.request m.callback = some r)
include asks

theorem find_sent (locate : UInt16) : (replayed api (sent ++ [m])).books.find locate =
    if r.locate = locate then some (api.call (bookAt api sent r.locate r.priceHint) r.call).2
    else (replayed api sent).books.find locate := by
  rw [replayed_append, BookBuilder.request_find api asks]
  split
  next here =>
    subst here
    rfl
  next => rfl

theorem unknownRefs_sent (accepted : (api.call (bookAt api sent r.locate r.priceHint) r.call).1 = true) :
    (replayed api (sent ++ [m])).unknownRefs = (replayed api sent).unknownRefs := by
  rw [replayed_append]
  rcases handler_unknownRefs api (replayed api sent) m.callback with ⟨-, same⟩ | ⟨counted, -⟩
  · exact same
  · have refused := (BookBuilder.request_counted api asks _).mp counted
    rw [bookAt] at accepted
    rw [accepted] at refused
    cases refused

end Sent

variable (R scaled n) in
theorem turn_draws (symbols : s.symbols.length = kNumSymbols) : ∃ k sym g, s.symbols[k]? = some sym ∧
    turn R scaled s n =
      s.put k sym (draw R scaled sym (kBaseTs + UInt64.ofNat n * kTsStep) s.nextRef s.nextMatch g) := by
  have pick := R.uniform_within 0 (kNumSymbols - 1) s.rng (by decide)
  generalize picked : R.uniform 0 (kNumSymbols - 1) s.rng = drawn at pick
  obtain ⟨place, g⟩ := drawn
  obtain ⟨k, rfl⟩ : ∃ k : Nat, place = k := ⟨place.toNat, (Int.toNat_of_nonneg pick.1).symm⟩
  have inside : k < s.symbols.length := by
    have bound : (k : Int) ≤ kNumSymbols - 1 := pick.2
    rw [symbols]
    omega
  have found : s.symbols[k]? = some s.symbols[k] := List.getElem?_eq_getElem inside
  have got : s.symbols.getD k {} = s.symbols[k] := by rw [List.getD_eq_getElem?_getD, found, Option.getD_some]
  refine ⟨k, s.symbols[k], g, found, ?_⟩
  simp only [turn, picked, Int.toNat_natCast, got]

theorem Follows.located (follows : Follows api orders ok s n sent) {k j : Nat} {sym other : Symbol}
    (found : s.symbols[k]? = some sym) (there : s.symbols[j]? = some other) (apart : k ≠ j) :
    sym.locate ≠ other.locate := by
  intro same
  have at_k := (follows.place k sym found).1
  have at_j := (follows.place j other there).1
  rw [← same, at_k] at at_j
  exact apart at_j

theorem put_follows (serves : Serves api orders ok) (follows : Follows api orders ok s n sent)
    (early : n < kTotalMessages) {k : Nat} {sym : Symbol} (found : s.symbols[k]? = some sym) {d : Drawn G}
    (applies : Applies sym (orders (bookAt api sent sym.locate 0)) (kBaseTs + UInt64.ofNat n * kTsStep) s.nextRef d) :
    Follows api orders ok (s.put k sym d) (n + 1) (sent ++ [d.message]) := by
  obtain ⟨located, quoted⟩ := follows.place k sym found
  obtain ⟨stamp, ⟨newer, oneMore⟩, r, asks, locate, listed, accepts, next⟩ := applies
  obtain ⟨okay, -⟩ := follows.pool sym (List.mem_of_getElem? found) r.priceHint
  obtain ⟨⟨answer, map⟩, okay'⟩ := serves.call _ r.call okay listed
  rw [bookAt_orders serves sent sym.locate 0 r.priceHint] at accepts next
  rw [accepts] at answer
  rw [← map] at next
  have inside : k < s.symbols.length := (List.getElem?_eq_some_iff.mp found).1
  refine ⟨?_, ?_, ?_, ?_, ?_, ?_, ?_, ?_, ?_⟩
  · rw [Session.put, follows.raw, Encode.stream, Encode.stream, List.map_append, List.foldl_append]
    rfl
  · rw [List.length_append, follows.count, List.length_singleton]
  · intro m member
    rcases List.mem_append.mp member with before | last
    · exact follows.clock m before
    · rw [List.mem_singleton.mp last, stamp]
      exact ts_early early
  · rw [unknownRefs_sent asks (by rw [locate]; exact answer), follows.unknownRefs]
  · have dated := follows.nextRef
    change d.nextRef.toNat ≤ n + 1 + 1
    omega
  · rw [Session.put, List.length_set, follows.symbols]
  · intro j other there
    rw [Session.put, List.getElem?_set] at there
    split at there
    next same =>
      obtain rfl := Option.some.inj there
      exact same ▸ ⟨located, quoted⟩
    next => exact follows.place j other there
  · intro other member hint
    obtain ⟨j, there⟩ := List.getElem?_of_mem member
    rw [Session.put, List.getElem?_set] at there
    split at there
    next same =>
      obtain rfl := Option.some.inj there
      rw [bookAt, find_sent asks, if_pos locate, Option.getD_some, locate]
      exact ⟨okay', next⟩
    next apart =>
      obtain ⟨fine, kept⟩ := follows.pool other (List.mem_of_getElem? there) hint
      rw [bookAt, find_sent asks, if_neg (locate ▸ follows.located found there apart)]
      exact ⟨fine, kept.later newer⟩
  · intro place b at_place
    rw [find_sent asks] at at_place
    split at at_place
    next here =>
      rw [← here, locate, located]
      exact follows.symbols ▸ inside
    next => exact follows.nowhere place b at_place

theorem turn_follows (serves : Serves api orders ok) (scales : Scales scaled)
    (follows : Follows api orders ok s n sent) (early : n < kTotalMessages) :
    ∃ m, Follows api orders ok (turn R scaled s n) (n + 1) (sent ++ [m]) := by
  obtain ⟨k, sym, g, found, turned⟩ := turn_draws R scaled n follows.symbols
  have quoted := (follows.place k sym found).2
  have pooled := (follows.pool sym (List.mem_of_getElem? found) 0).2
  have room : s.nextRef.toNat + 1 < 2 ^ 64 := by
    have dated := follows.nextRef
    have most : n < 2200000 := early
    omega
  have applies := draw_applies (R := R) scales (kBaseTs + UInt64.ofNat n * kTsStep) s.nextMatch quoted pooled room g
  rw [turned]
  exact ⟨_, put_follows serves follows early found applies⟩

theorem session_follows (serves : Serves api orders ok) (scales : Scales scaled) (g : G)
    (within : n ≤ kTotalMessages) : ∃ sent, Follows api orders ok (session R scaled n g) n sent := by
  induction n with
  | zero => exact ⟨[], opened_follows serves g⟩
  | succ n ih =>
    obtain ⟨sent, follows⟩ := ih (Nat.le_of_succ_le within)
    obtain ⟨m, next⟩ := turn_follows (R := R) serves scales follows within
    refine ⟨sent ++ [m], ?_⟩
    rw [session, List.range_succ, List.foldl_append]
    exact next

theorem events_encoded (clock : ∀ m ∈ sent, m.timestamp.toNat < 2 ^ 48) :
    events (Encode.stream (sent.map Message.encode)) = sent.map Message.callback := by
  have split : Framing.frames (Encode.stream (sent.map Message.encode)) = sent.map Message.encode := by
    rw [Encode.stream_eq]
    refine Framing.frames_stream _ fun p inside => ?_
    obtain ⟨m, -, rfl⟩ := List.mem_map.mp inside
    exact m.encode_framable
  rw [events, split, List.map_map]
  exact List.map_congr_left fun m inside => m.event_encode (clock m inside)

structure Replays (api : BookType B) (orders : B → Orders) (s : Session G) (n : Nat) : Prop where
  frames : (parseStream (BookBuilder.handler api) s.raw {}).2 = n
  unknownRefs : (parseStream (BookBuilder.handler api) s.raw {}).1.unknownRefs = 0
  pools : ∀ sym ∈ s.symbols, Mirrors OpenOrder.ref OpenOrder.order sym.openOrders
    ((((parseStream (BookBuilder.handler api) s.raw {}).1.books.find sym.locate).map orders).getD ∅)
  nowhere : ∀ locate b, (parseStream (BookBuilder.handler api) s.raw {}).1.books.find locate = some b →
    locate.toNat < kNumSymbols

theorem Follows.replays (serves : Serves api orders ok) (follows : Follows api orders ok s n sent) :
    Replays api orders s n := by
  have parsed : parseStream (BookBuilder.handler api) s.raw {} = (replayed api sent, n) := by
    rw [BookBuilder.parseStream_build, follows.raw, events_encoded follows.clock, List.length_map, follows.count]
    rfl
  refine ⟨by rw [parsed], by rw [parsed, follows.unknownRefs], fun sym inside => ?_, ?_⟩
  · have mirrors := (follows.pool sym inside 0).2.mirrors
    rw [parsed]
    rw [bookAt] at mirrors
    cases found : (replayed api sent).books.find sym.locate with
    | some b =>
      rw [found] at mirrors
      exact mirrors
    | none =>
      rw [found, Option.getD_none, (serves.fresh 0).2] at mirrors
      exact mirrors
  · rw [parsed]
    exact follows.nowhere

theorem Replays.totals (replays : Replays api orders s n) {raw : List UInt8} (whole : s.raw = raw) :
    (parseStream (BookBuilder.handler api) raw {}).2 = n ∧
      (parseStream (BookBuilder.handler api) raw {}).1.unknownRefs = 0 := by
  rw [← whole]
  exact ⟨replays.frames, replays.unknownRefs⟩

end Turns

/-- The bench's session is valid at every length up to the whole: whatever the engine
draws, both replays know every reference and hold in each symbol's book the orders of
that symbol's pool, and in no other book any. The session it returns has all kTotalMessages. -/
theorem session_replays (R : Rng G) (scaled : UInt32 → Int → UInt32) (scales : Scales scaled) (g : G) (n : Nat)
    (within : n ≤ kTotalMessages) :
    (Replays orderBook OrderBook.orders (session R scaled n g) n ∧
      Replays production LadderBook.orders (session R scaled n g) n) ∧
    let maps := parseStream (BookBuilder.handler orderBook) (generateSyntheticSession R scaled g) {}
    let ladders := parseStream (BookBuilder.handler production) (generateSyntheticSession R scaled g) {}
    (maps.2 = kTotalMessages ∧ maps.1.unknownRefs = 0) ∧ ladders.2 = kTotalMessages ∧ ladders.1.unknownRefs = 0 := by
  have valid (n : Nat) (within : n ≤ kTotalMessages) :
      Replays orderBook OrderBook.orders (session R scaled n g) n ∧
        Replays production LadderBook.orders (session R scaled n g) n := by
    obtain ⟨sent, maps⟩ := session_follows (R := R) orderBook_serves scales g within
    obtain ⟨sent', ladders⟩ := session_follows (R := R) production_serves scales g within
    exact ⟨maps.replays orderBook_serves, ladders.replays production_serves⟩
  have whole : (session R scaled kTotalMessages g).raw = generateSyntheticSession R scaled g := by
    rw [generateSyntheticSession_eq]
  obtain ⟨maps, ladders⟩ := valid kTotalMessages le_rfl
  exact ⟨valid n within, maps.totals whole, ladders.totals whole⟩

-- An engine that draws what is listed, then the least value.
def listed : Rng (List Nat) where
  uniform a b g := (a + (g.headD 0 : Int) % (b - a + 1), g.tail)
  discrete weights g := (g.headD 0 % weights.length, g.tail)
  uniform_within a b g le := by
    have low := Int.emod_nonneg (g.headD 0 : Int) (show b - a + 1 ≠ 0 by omega)
    have high := Int.emod_lt_of_pos (g.headD 0 : Int) (show 0 < b - a + 1 by omega)
    dsimp only
    omega
  discrete_within weights g some := Nat.mod_lt _ (List.length_pos_of_ne_nil some)

def wholeScaled (mid : UInt32) (bps : Int) : UInt32 := UInt32.ofNat (mid.toNat * (10000 + bps).toNat / 10000)

-- An add, then every other message type on the order it put into the pool.
def drawsAll : List Nat :=
  [0, 0, 0, 0] ++ [0, 1, 0, 29] ++ [0, 2, 0, 19, 0] ++ [0, 3, 0, 9] ++ [0, 5, 0, 300, 4] ++ [0, 4, 0]

theorem session_replays_all_types :
    (Framing.frames (session listed wholeScaled 6 drawsAll).raw).filterMap List.head? = "AECXUD".toUTF8.toList ∧
      Replays orderBook OrderBook.orders (session listed wholeScaled 6 drawsAll) 6 ∧
      Replays production LadderBook.orders (session listed wholeScaled 6 drawsAll) 6 := by
  refine ⟨by decide +kernel, ?_⟩
  refine (session_replays listed wholeScaled (fun mid bps small low high => ?_) drawsAll 6 (by decide)).1
  have factor : (10000 + bps).toNat ≤ 10500 ∧ 9500 ≤ (10000 + bps).toNat := by omega
  have most := Nat.mul_le_mul_left mid.toNat factor.1
  have least := Nat.mul_le_mul_left mid.toNat factor.2
  simp only [wholeScaled, UInt32.toNat_ofNat']
  rw [Nat.mod_eq_of_lt (by omega)]
  omega

end ItchLob.Bench
