import ItchLob.Pipeline.MemoryOrders
import ItchLob.Pipeline.TwoThreads

set_option autoImplicit false

namespace ItchLob.Pipeline

namespace MemoryOrders

-- The same move, its load reading the store of number i.
def Action.reading {T : Type} (i : Nat) : SpscQueue.Move T → Action T
  | .push v => .push v
  | .pop => .pop
  | .producerSize => .producerSize
  | .consumerSize => .consumerSize
  | .producer => .producer i
  | .consumer => .consumer i

end MemoryOrders

namespace ThreadedOrders

open ReleaseAcquire MemoryOrders
open TwoThreads (Turn Channel Reading)

abbrev State (E σ : Type) := TwoThreads.State (MemoryOrders.State E) E σ

def init {E σ : Type} (blank : E) (produced : List E) (builder : σ) : State E σ :=
  { queue := MemoryOrders.init blank, todo := produced, builder }

/-- The atomics as they are stored and loaded; producer_done is one of them. -/
def channel (E : Type) (c : Capacity) : Channel Nat E (MemoryOrders.State E) where
  producer q := q.producer
  consumer q := q.consumer
  access q m i := MemoryOrders.step c q (Action.reading i m)
  storeDone q := { q with memory := q.memory.store .producer .producerDone true }
  loadDone q i :=
    (q.memory.load .acquire .consumer .producerDone i).map fun r => (r.1, { q with memory := r.2 })

def step {E σ : Type} (c : Capacity) (dispatch : E → σ → σ) (s : State E σ) (turn : Turn × Nat) :
    Option (State E σ) :=
  TwoThreads.step (channel E c) dispatch s turn.1 turn.2

-- producer_done starts false, and its only later store is true. Having read that one the
-- book-builder thread has seen the store of tail_ behind the last push.
def reading (E : Type) (c : Capacity) (total : Nat) : Reading E (MemoryOrders.State E) where
  pushed q := q.pushed
  popped q := q.popped
  Ok q := MemoryOrders.Inv c total q ∧ ∀ msg, (q.memory.history .producerDone)[0]? = some msg → msg.value = false
  Told _ := False
  Seen q := total ≤ (q.memory.view .consumer).latest .tail

section Laws

variable {E : Type} {c : Capacity} {total : Nat} {q q' : MemoryOrders.State E}

theorem push_eq {v : E} (taken : MemoryOrders.step c q (.push v) = some q') :
    q' = { q with producer := .pushLoadTail v } := by
  simp only [MemoryOrders.step] at taken
  split at taken <;> cases taken
  rfl

theorem producerSize_eq (taken : MemoryOrders.step c q .producerSize = some q') :
    q' = { q with producer := .sizeLoadTail } := by
  simp only [MemoryOrders.step] at taken
  split at taken <;> cases taken
  rfl

theorem pop_eq (taken : MemoryOrders.step c q .pop = some q') : q' = { q with consumer := .popLoadHead } := by
  simp only [MemoryOrders.step] at taken
  split at taken <;> cases taken
  rfl

theorem produces (ok : (reading E c total).Ok q) (inv : MemoryOrders.Inv c total q')
    (consumer : q'.consumer = q.consumer) (popped : q'.popped = q.popped)
    (view : q'.memory.view .consumer = q.memory.view .consumer)
    (done : q'.memory.history .producerDone = q.memory.history .producerDone) :
    (reading E c total).Produces (channel E c) q q' := by
  refine ⟨⟨inv, done ▸ ok.2⟩, consumer, popped, id, fun seen => ?_⟩
  change total ≤ (q'.memory.view .consumer).latest .tail
  rw [view]
  exact seen

theorem consumes (ok : (reading E c total).Ok q) (inv : MemoryOrders.Inv c total q')
    (producer : q'.producer = q.producer) (pushed : q'.pushed = q.pushed)
    (sees : (q.memory.view .consumer).latest .tail ≤ (q'.memory.view .consumer).latest .tail)
    (done : q'.memory.history .producerDone = q.memory.history .producerDone) :
    (reading E c total).Consumes (channel E c) q q' :=
  ⟨⟨inv, done ▸ ok.2⟩, producer, pushed, id, fun seen => Nat.le_trans seen sees⟩

theorem finish_ok (ok : (reading E c total).Ok q) (all : total ≤ q.pushed.length) :
    (reading E c total).Ok ((channel E c).storeDone q) := by
  refine ⟨ok.1.finish all, fun msg first => ?_⟩
  rcases Memory.store_get first with before | ⟨-, number, -⟩
  · exact ok.2 msg before
  · have some := ok.1.sound.latest .producerDone
    omega

-- What true loaded from producer_done tells of tail_.
theorem loadDone_seen (ok : (reading E c total).Ok q) {b : Bool} {i : Nat}
    (taken : (channel E c).loadDone q i = some (b, q')) :
    (reading E c total).Consumes (channel E c) q q' ∧ q'.consumer = q.consumer ∧ q'.popped = q.popped ∧
      (b = true → (reading E c total).Seen q') := by
  obtain ⟨r, loaded, same⟩ := Option.map_eq_some_iff.mp taken
  obtain ⟨rfl, rfl⟩ := Prod.mk.inj same
  obtain ⟨inv, -, ⟨msg, stored, value⟩, v, memory, grows, seen⟩ := ok.1.load (.inl rfl) loaded
  have view : r.2.view .consumer = v := memory ▸ Memory.setView_self _ _
  have done : r.2.history .producerDone = q.memory.history .producerDone := by rw [memory]; rfl
  refine ⟨consumes ok inv rfl rfl ?_ done, rfl, rfl, fun told => ?_⟩
  · change _ ≤ (r.2.view .consumer).latest .tail
    rw [view]
    exact grows.1 .tail
  · have later : 1 ≤ i := by
      rcases Nat.eq_zero_or_pos i with rfl | later
      · have first := ok.2 msg stored
        rw [value, told] at first
        cases first
      · exact later
    exact inv.sound.has.threads .consumer .producerDone (later.trans (view ▸ seen))

theorem lawful (E : Type) (c : Capacity) (total : Nat) :
    (channel E c).Lawful (reading E c total) total fun n => n < c.value where
  push {q q' v i} ok taken := by
    have moved : MemoryOrders.step c q (.push v) = some q' := taken
    have inv := step_inv ok.1 moved
    obtain rfl := push_eq moved
    exact ⟨produces ok inv rfl rfl rfl rfl, rfl, rfl⟩
  producerSize {q q' i} ok taken := by
    have moved : MemoryOrders.step c q (.producerSize) = some q' := taken
    have inv := step_inv ok.1 moved
    obtain rfl := producerSize_eq moved
    exact ⟨produces ok inv rfl rfl rfl rfl, rfl, rfl⟩
  producer ok taken := by
    obtain ⟨inv, consumer, popped, view, done, push, size, -⟩ := producerStep_moved ok.1 taken
    exact ⟨produces ok inv consumer popped view done, push, size⟩
  storeDone {q} ok all := by
    refine ⟨finish_ok ok all, rfl, rfl, rfl, rfl, fun seen => ?_⟩
    change total ≤ ((q.memory.store .producer .producerDone true).view .consumer).latest .tail
    rw [Memory.store_of_ne (by decide)]
    exact seen
  pop {q q' i} ok taken := by
    have moved : MemoryOrders.step c q (.pop) = some q' := taken
    have inv := step_inv ok.1 moved
    obtain rfl := pop_eq moved
    exact ⟨consumes ok inv rfl rfl (Nat.le_refl _) rfl, rfl, rfl⟩
  consumer ok running taken := by
    obtain ⟨inv, producer, pushed, sees, done, pop⟩ := consumerStep_moved ok.1 taken
    refine ⟨consumes ok inv producer pushed sees done, ?_⟩
    rcases pop running with kept | took | ⟨same, empty, drained⟩
    · exact .inl kept
    · exact .inr (.inl took)
    · exact .inr (.inr ⟨same, empty, fun all => (Nat.le_trans all drained).trans
        (Nat.le_of_eq (congrArg List.length same.symm))⟩)
  loadDone ok loaded := loadDone_seen ok loaded
  fifo {q} ok := by
    change q.popped <+: q.pushed
    rw [ok.1.fifo]
    exact List.take_prefix _ _
  none := Nat.lt_of_lt_of_le Nat.two_pos c.value_ge
  sized {q n} ok returned := by
    have sized := ok.1.producer
    rw [show q.producer = .sized n from returned] at sized
    exact sized.2

end Laws

variable {E σ : Type} {c : Capacity} {dispatch : E → σ → σ} {produced : List E} {empty : σ} {s : State E σ}

abbrev Inv (c : Capacity) (produced : List E) (empty : σ) (dispatch : E → σ → σ) (s : State E σ) : Prop :=
  TwoThreads.Inv (channel E c) (reading E c produced.length) produced empty dispatch (fun n => n < c.value) s

theorem init_inv (blank : E) : Inv c produced empty dispatch (init blank produced empty) := by
  refine ⟨⟨MemoryOrders.init_inv c _ blank, fun msg first => ?_⟩, ⟨rfl, rfl⟩, rfl, nofun, rfl, rfl,
    (lawful E c 0).none⟩
  obtain rfl := Option.some.inj first
  rfl

theorem reachable_inv {blank : E}
    (reachable : Transition.Reachable (step c dispatch) (init blank produced empty) s) :
    Inv c produced empty dispatch s :=
  reachable.invariant (init_inv blank) fun _ _ _ _ inv taken =>
    TwoThreads.step_inv (lawful E c produced.length) inv taken

end ThreadedOrders

end ItchLob.Pipeline
