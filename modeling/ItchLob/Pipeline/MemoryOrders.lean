import ItchLob.Shared.ReleaseAcquire
import ItchLob.Pipeline.SpscQueue

set_option autoImplicit false

namespace ItchLob.Pipeline

namespace MemoryOrders

open ReleaseAcquire SpscQueue

inductive Thread where
  | producer
  | consumer
  deriving DecidableEq, Repr

-- The atomics of a pipeline; each is stored to by one thread only.
inductive Atomic where
  | head
  | tail
  | producerDone
  deriving DecidableEq, Repr

@[reducible] def Atomic.Value : Atomic → Type
  | .head => Nat
  | .tail => Nat
  | .producerDone => Bool

def Atomic.writer : Atomic → Thread
  | .head => .consumer
  | .tail => .producer
  | .producerDone => .producer

def Atomic.first : (l : Atomic) → l.Value
  | .head => 0
  | .tail => 0
  | .producerDone => false

abbrev Shared (T : Type) := Memory Thread Atomic Atomic.Value Nat T

structure State (T : Type) where
  memory : Shared T
  producer : Producer T := .idle
  consumer : Consumer T := .idle
  pushed : List T := []
  popped : List T := []

section Step

variable {T : Type} (c : Capacity)

def init (blank : T) : State T := { memory := Memory.init Atomic.first blank }

-- A load reads the store of number i; the other accesses do not look at i.
def producerStep (s : State T) (i : Nat) : Option (State T) :=
  match s.producer with
  | .pushLoadTail v =>
    (s.memory.load .relaxed .producer .tail i).map fun r => { s with memory := r.2, producer := .pushLoadHead v r.1 }
  | .pushLoadHead v tail =>
    (s.memory.load .acquire .producer .head i).map fun r =>
      let next := (tail + 1) &&& c.kMask
      { s with memory := r.2, producer := if next = r.1 then .pushed v false else .pushWrite v tail next }
  | .pushWrite v tail next => some { s with memory := s.memory.write .producer tail v, producer := .pushStore v next }
  | .pushStore v next =>
    some { s with
      memory := s.memory.store .producer .tail next
      producer := .pushed v true
      pushed := s.pushed ++ [v] }
  | .sizeLoadTail =>
    (s.memory.load .acquire .producer .tail i).map fun r => { s with memory := r.2, producer := .sizeLoadHead r.1 }
  | .sizeLoadHead tail =>
    (s.memory.load .acquire .producer .head i).map fun r =>
      { s with memory := r.2, producer := .sized (size c tail r.1) }
  | _ => none

def consumerStep (s : State T) (i : Nat) : Option (State T) :=
  match s.consumer with
  | .popLoadHead =>
    (s.memory.load .relaxed .consumer .head i).map fun r => { s with memory := r.2, consumer := .popLoadTail r.1 }
  | .popLoadTail head =>
    (s.memory.load .acquire .consumer .tail i).map fun r =>
      { s with memory := r.2, consumer := if head = r.1 then .popped none else .popRead head }
  | .popRead head =>
    let r := s.memory.read .consumer head
    some { s with memory := r.2, consumer := .popStore head r.1 }
  | .popStore head out =>
    some { s with
      memory := s.memory.store .consumer .head ((head + 1) &&& c.kMask)
      consumer := .popped (some out)
      popped := s.popped ++ [out] }
  | .sizeLoadTail =>
    (s.memory.load .acquire .consumer .tail i).map fun r => { s with memory := r.2, consumer := .sizeLoadHead r.1 }
  | .sizeLoadHead tail =>
    (s.memory.load .acquire .consumer .head i).map fun r =>
      { s with memory := r.2, consumer := .sized (size c tail r.1) }
  | _ => none

end Step

-- Seeing an index means knowing the slot accesses made before it was stored; seeing
-- producer_done means having seen every push.
def handed (total : Nat) : Facts Thread Atomic where
  holds
    | .tail, i, v => i ≤ v.known .producer
    | .head, i, v => i ≤ v.known .consumer
    | .producerDone, i, v => 1 ≤ i → total ≤ v.latest .tail
  grows
    | .tail, _, _, _, grown, knows => knows.trans (grown.2 _)
    | .head, _, _, _, grown, knows => knows.trans (grown.2 _)
    | .producerDone, _, _, _, grown, all => fun done => (all done).trans (grown.1 _)

section Invariant

variable {T : Type} (c : Capacity)

-- A slot access whose index is not stored yet.
def unstored : Producer T → Nat
  | .pushStore _ _ => 1
  | _ => 0

def unreleased : Consumer T → Nat
  | .popStore _ _ => 1
  | _ => 0

def ProducerOk (s : State T) : Producer T → Prop
  | .pushLoadHead _ tail => tail = s.pushed.length % c.value
  | .pushWrite _ tail next =>
    tail = s.pushed.length % c.value ∧ next = (s.pushed.length + 1) % c.value ∧
      s.pushed.length + 1 < (s.memory.view .producer).latest .head + c.value
  | .pushStore v next =>
    next = (s.pushed.length + 1) % c.value ∧
      s.pushed.length + 1 < (s.memory.view .producer).latest .head + c.value ∧
      s.memory.cell (s.pushed.length % c.value) = v
  | .sizeLoadHead tail => tail = s.pushed.length % c.value
  | .sized occ => s.pushed.length ≤ s.popped.length + occ ∧ occ < c.value
  | _ => True

def ConsumerOk (s : State T) : Consumer T → Prop
  | .popLoadTail head => head = s.popped.length % c.value
  | .popRead head => head = s.popped.length % c.value ∧ s.popped.length < (s.memory.view .consumer).latest .tail
  | .popStore head out =>
    head = s.popped.length % c.value ∧ s.popped.length < (s.memory.view .consumer).latest .tail ∧
      s.pushed[s.popped.length]? = some out
  | .sizeLoadHead tail => ∃ i, tail = i % c.value ∧ s.popped.length ≤ i ∧ i ≤ s.pushed.length
  | .sized occ => s.popped.length + occ ≤ s.pushed.length
  | _ => True

def Regular (a : Access Thread Nat) : Prop := a.cell = a.time % c.value ∧ (a.write = true ↔ a.thread = .producer)

structure Inv (total : Nat) (s : State T) : Prop where
  sound : s.memory.Sound (handed total) Atomic.writer
  tails : (s.memory.history .tail).map Message.value = (List.range (s.pushed.length + 1)).map fun i => i % c.value
  heads : (s.memory.history .head).map Message.value = (List.range (s.popped.length + 1)).map fun i => i % c.value
  fifo : s.popped = s.pushed.take s.popped.length
  seen : s.popped.length ≤ (s.memory.view .consumer).latest .tail
  room : s.pushed.length < (s.memory.view .producer).latest .head + c.value
  slots : ∀ i, s.popped.length ≤ i → i < s.pushed.length → s.pushed[i]? = some (s.memory.cell (i % c.value))
  writes : (s.memory.view .producer).known .producer = s.pushed.length + unstored s.producer
  reads : (s.memory.view .consumer).known .consumer = s.popped.length + unreleased s.consumer
  regular : ∀ a ∈ s.memory.accesses, Regular c a ∧ a.time < (s.memory.view a.thread).known a.thread
  raceFree : RaceFree s.memory.accesses
  producer : ProducerOk c s s.producer
  consumer : ConsumerOk c s s.consumer

variable {c} {total : Nat} {s s' : State T}

theorem stored_value {l : Atomic} {n i : Nat} {f : Nat → l.Value} {msg : Message Thread Atomic l.Value}
    (values : (s.memory.history l).map Message.value = (List.range (n + 1)).map f)
    (stored : (s.memory.history l)[i]? = some msg) : msg.value = f i ∧ i ≤ n := by
  have size : (s.memory.history l).length = n + 1 := by simpa using congrArg List.length values
  have inside := (List.getElem?_eq_some_iff.mp stored).1
  have here := congrArg (fun xs => xs[i]?) values
  simp only [List.getElem?_map, stored, Option.map_some, List.getElem?_range (size ▸ inside)] at here
  exact ⟨Option.some.inj here, by omega⟩

theorem ProducerOk.frame {pc : Producer T} (ok : ProducerOk c s pc) (pushed : s'.pushed = s.pushed)
    (head : (s'.memory.view .producer).latest .head = (s.memory.view .producer).latest .head)
    (cell : s'.memory.cell = s.memory.cell) (taken : s.popped.length ≤ s'.popped.length) : ProducerOk c s' pc := by
  cases pc with
  | pushLoadHead | pushWrite | pushStore | sizeLoadHead => simpa only [ProducerOk, pushed, head, cell] using ok
  | sized occ =>
    refine ⟨?_, ok.2⟩
    rw [pushed]
    exact ok.1.trans (Nat.add_le_add_right taken occ)
  | _ => trivial

theorem ConsumerOk.frame {pc : Consumer T} (ok : ConsumerOk c s pc) (popped : s'.popped = s.popped)
    (tail : (s'.memory.view .consumer).latest .tail = (s.memory.view .consumer).latest .tail)
    (pushed : s.pushed <+: s'.pushed) : ConsumerOk c s' pc := by
  have longer := pushed.length_le
  cases pc with
  | popLoadTail | popRead => simpa only [ConsumerOk, popped, tail] using ok
  | popStore head out =>
    obtain ⟨same, nonempty, read⟩ := ok
    obtain ⟨more, grown⟩ := pushed
    have inside := (List.getElem?_eq_some_iff.mp read).1
    simp only [ConsumerOk, popped, tail]
    exact ⟨same, nonempty, by rw [← grown, List.getElem?_append_left inside, read]⟩
  | sizeLoadHead tail =>
    obtain ⟨i, same, low, high⟩ := ok
    exact ⟨i, same, popped ▸ low, high.trans longer⟩
  | sized occ =>
    change s'.popped.length + occ ≤ s'.pushed.length
    rw [popped]
    exact ok.trans longer
  | _ => trivial

namespace Inv

theorem tail_length (inv : Inv c total s) : (s.memory.history .tail).length = s.pushed.length + 1 := by
  simpa using congrArg List.length inv.tails

theorem head_length (inv : Inv c total s) : (s.memory.history .head).length = s.popped.length + 1 := by
  simpa using congrArg List.length inv.heads

theorem producer_behind (inv : Inv c total s) : (s.memory.view .producer).latest .head ≤ s.popped.length :=
  Nat.le_of_lt_succ ((inv.sound.within.threads .producer .head).trans_eq inv.head_length)

theorem consumer_behind (inv : Inv c total s) : (s.memory.view .consumer).latest .tail ≤ s.pushed.length :=
  Nat.le_of_lt_succ ((inv.sound.within.threads .consumer .tail).trans_eq inv.tail_length)

theorem producer_own (inv : Inv c total s) : (s.memory.view .producer).latest .tail = s.pushed.length :=
  Nat.succ_injective ((inv.sound.latest .tail).trans inv.tail_length)

theorem consumer_own (inv : Inv c total s) : (s.memory.view .consumer).latest .head = s.popped.length :=
  Nat.succ_injective ((inv.sound.latest .head).trans inv.head_length)

theorem order (inv : Inv c total s) : s.popped.length ≤ s.pushed.length := inv.seen.trans inv.consumer_behind

theorem producer_knows (inv : Inv c total s) :
    (s.memory.view .producer).latest .head ≤ (s.memory.view .producer).known .consumer :=
  inv.sound.has.threads .producer .head

theorem consumer_knows (inv : Inv c total s) :
    (s.memory.view .consumer).latest .tail ≤ (s.memory.view .consumer).known .producer :=
  inv.sound.has.threads .consumer .tail

theorem producer_pc (inv : Inv c total s) (pc : Producer T) (stored : unstored pc = unstored s.producer)
    (ok : ProducerOk c s pc) : Inv c total { s with producer := pc } :=
  { inv with
    writes := inv.writes.trans (by rw [stored])
    producer := by cases pc <;> exact ok
    consumer := by
      have held := inv.consumer
      revert held
      cases s.consumer <;> exact id }

theorem consumer_pc (inv : Inv c total s) (pc : Consumer T) (released : unreleased pc = unreleased s.consumer)
    (ok : ConsumerOk c s pc) : Inv c total { s with consumer := pc } :=
  { inv with
    reads := inv.reads.trans (by rw [released])
    producer := by
      have held := inv.producer
      revert held
      cases s.producer <;> exact id
    consumer := by cases pc <;> exact ok }

theorem grown (inv : Inv c total s) {t : Thread} {v : View Thread Atomic} (newer : s.memory.view t ≤ v)
    (sound : (s.memory.setView t v).Sound (handed total) Atomic.writer)
    (clock : v.known t = (s.memory.view t).known t) :
    Inv c total { s with memory := s.memory.setView t v } := by
  have more (u : Thread) : s.memory.view u ≤ (s.memory.setView t v).view u := by
    by_cases same : u = t
    · subst same
      rw [Memory.setView_self]
      exact newer
    · rw [Memory.setView_of_ne same]
  have clocks (u : Thread) : ((s.memory.setView t v).view u).known u = (s.memory.view u).known u := by
    by_cases same : u = t
    · subst same
      rw [Memory.setView_self]
      exact clock
    · rw [Memory.setView_of_ne same]
  have head := (more .producer).1 .head
  have tail := (more .consumer).1 .tail
  refine ⟨sound, inv.tails, inv.heads, inv.fifo, inv.seen.trans tail, ?_, inv.slots, (clocks _).trans inv.writes,
    (clocks _).trans inv.reads, fun a member => ?_, inv.raceFree, ?_, ?_⟩
  · exact Nat.lt_of_lt_of_le inv.room (Nat.add_le_add_right head _)
  · obtain ⟨regular, before⟩ := inv.regular a member
    exact ⟨regular, (clocks a.thread).symm ▸ before⟩
  · have held := inv.producer
    cases pc : s.producer with
    | pushWrite w tail next =>
      rw [pc] at held
      exact ⟨held.1, held.2.1, Nat.lt_of_lt_of_le held.2.2 (Nat.add_le_add_right head _)⟩
    | pushStore w next =>
      rw [pc] at held
      exact ⟨held.1, Nat.lt_of_lt_of_le held.2.1 (Nat.add_le_add_right head _), held.2.2⟩
    | _ =>
      rw [pc] at held
      exact held
  · have held := inv.consumer
    cases pc : s.consumer with
    | popRead head =>
      rw [pc] at held
      exact ⟨held.1, Nat.lt_of_lt_of_le held.2 tail⟩
    | popStore head out =>
      rw [pc] at held
      exact ⟨held.1, Nat.lt_of_lt_of_le held.2.1 tail, held.2.2⟩
    | _ =>
      rw [pc] at held
      exact held

theorem load (inv : Inv c total s) {order : Order} {t : Thread} {l : Atomic} {i : Nat} {r : l.Value × Shared T}
    (allowed : order = .acquire ∨ t = l.writer) (taken : s.memory.load order t l i = some r) :
    Inv c total { s with memory := r.2 } ∧ (s.memory.view t).latest l ≤ i ∧
      (∃ msg, (s.memory.history l)[i]? = some msg ∧ msg.value = r.1) ∧
      ∃ v, r.2 = s.memory.setView t v ∧ s.memory.view t ≤ v ∧ i ≤ v.latest l := by
  obtain ⟨msg, stored, newer, rfl⟩ := Memory.load_eq taken
  have grown := (inv.sound.seen allowed newer stored).2.1
  exact ⟨inv.grown grown (inv.sound.load allowed newer stored) (inv.sound.seen_clock allowed newer stored), newer,
    ⟨msg, stored, rfl⟩, _, rfl, grown, Memory.le_seen order t l i msg⟩

-- No read of the slot being written is unknown to the producer.
theorem write_safe (inv : Inv c total s) {v : T} {tail next : Nat} (pc : s.producer = .pushWrite v tail next) :
    ∀ a ∈ s.memory.accesses, a.cell = tail → a.thread ≠ .producer →
      a.time < (s.memory.view .producer).known a.thread := by
  intro a member same other
  obtain ⟨⟨cell, -⟩, before⟩ := inv.regular a member
  have ok := inv.producer
  rw [pc] at ok
  obtain ⟨here, -, space⟩ := ok
  obtain reader : a.thread = .consumer := by
    cases thread : a.thread with
    | producer => exact absurd thread other
    | consumer => rfl
  rw [reader, inv.reads] at before
  rw [reader]
  have known := inv.producer_knows
  have behind := inv.consumer_behind
  have earlier : a.time < s.pushed.length := by
    have ok := inv.consumer
    have seen := inv.seen
    cases pc' : s.consumer with
    | popStore head out =>
      rw [pc'] at ok before
      obtain ⟨-, nonempty, -⟩ := ok
      simp only [unreleased] at before
      omega
    | _ =>
      rw [pc'] at before
      simp only [unreleased] at before
      omega
  by_contra unknown
  have collides : a.time = s.pushed.length :=
    c.mod_inj (s.memory.view .producer |>.latest .head) (by omega) (by omega) (by omega) (by omega)
      (cell.symm.trans (same.trans here))
  omega

-- No write of the slot being read is unknown to the consumer.
theorem read_safe (inv : Inv c total s) {head : Nat} (pc : s.consumer = .popRead head) :
    ∀ a ∈ s.memory.accesses, a.cell = head → a.thread ≠ .consumer →
      a.time < (s.memory.view .consumer).known a.thread := by
  intro a member same other
  obtain ⟨⟨cell, -⟩, before⟩ := inv.regular a member
  have ok := inv.consumer
  rw [pc] at ok
  obtain ⟨here, nonempty⟩ := ok
  obtain writer : a.thread = .producer := by
    cases thread : a.thread with
    | producer => rfl
    | consumer => exact absurd thread other
  rw [writer, inv.writes] at before
  rw [writer]
  have known := inv.consumer_knows
  have behind := inv.producer_behind
  have earlier : a.time < s.popped.length + c.value := by
    have ok := inv.producer
    have room := inv.room
    cases pc' : s.producer with
    | pushStore v next =>
      rw [pc'] at ok before
      obtain ⟨-, space, -⟩ := ok
      simp only [unstored] at before
      omega
    | _ =>
      rw [pc'] at before
      simp only [unstored] at before
      omega
  by_contra unknown
  have collides : a.time = s.popped.length :=
    c.mod_inj s.popped.length (by omega) earlier (Nat.le_refl _) (by omega) (cell.symm.trans (same.trans here))
  omega

theorem regular_access (inv : Inv c total s) {t : Thread} {cell : Nat} {write : Bool}
    (here : cell = (s.memory.view t).known t % c.value) (kind : write = true ↔ t = .producer) :
    ∀ a ∈ (s.memory.access t cell write).accesses,
      Regular c a ∧ a.time < ((s.memory.access t cell write).view a.thread).known a.thread := by
  intro a member
  rcases List.mem_append.mp member with old | new
  · obtain ⟨regular, before⟩ := inv.regular a old
    exact ⟨regular, before.trans_le (Memory.setView_clocks (View.le_tick _ _) a.thread)⟩
  · obtain rfl := List.mem_singleton.mp new
    refine ⟨⟨here, kind⟩, ?_⟩
    rw [Memory.access_self, View.tick_known]
    exact Nat.lt_succ_self _

theorem raceFree_access (inv : Inv c total s) {t : Thread} {cell : Nat} (write : Bool)
    (safe : ∀ a ∈ s.memory.accesses, a.cell = cell → a.thread ≠ t → a.time < (s.memory.view t).known a.thread) :
    RaceFree (s.memory.access t cell write).accesses :=
  inv.raceFree.append fun a member conflict => safe a member conflict.1 conflict.2.1

theorem write (inv : Inv c total s) {v : T} {tail next : Nat} (pc : s.producer = .pushWrite v tail next) :
    Inv c total { s with memory := s.memory.write .producer tail v, producer := .pushStore v next } := by
  have safe := inv.write_safe pc
  have ok := inv.producer
  have writes := inv.writes
  rw [pc] at ok writes
  obtain ⟨here, next_eq, space⟩ := ok
  have own : (s.memory.write .producer tail v).view .producer = (s.memory.view .producer).tick .producer :=
    Memory.write_self Thread.producer tail v
  have other : (s.memory.write .producer tail v).view .consumer = s.memory.view .consumer :=
    Memory.write_of_ne (show Thread.consumer ≠ .producer by decide) tail v
  have index : tail = (s.memory.view .producer).known .producer % c.value := here.trans (by rw [writes]; rfl)
  refine ⟨inv.sound.write .producer tail v, inv.tails, inv.heads, inv.fifo, ?_, ?_, ?_, ?_, ?_,
    inv.regular_access index (iff_of_true rfl rfl), inv.raceFree_access true safe, ?_, ?_⟩
  · rw [other]
    exact inv.seen
  · rw [own]
    exact inv.room
  · -- The written slot belongs to none of the elements still held.
    intro i low high
    change s.popped.length ≤ i at low
    change i < s.pushed.length at high
    have behind := inv.producer_behind
    have apart : i % c.value ≠ tail := by
      rw [here]
      intro same
      have := c.mod_inj s.popped.length low (by omega) (by omega) (by omega) same
      omega
    rw [inv.slots i low high]
    exact congrArg some (Function.update_of_ne apart ..).symm
  · rw [own, View.tick_known, writes]
    rfl
  · rw [other]
    exact inv.reads
  · refine ⟨next_eq, ?_, ?_⟩
    · rw [own]
      exact space
    · rw [← here]
      exact Function.update_self ..
  · exact inv.consumer.frame rfl (by rw [other]) List.prefix_rfl

theorem read (inv : Inv c total s) {head : Nat} (pc : s.consumer = .popRead head) :
    Inv c total { s with
      memory := s.memory.access .consumer head false
      consumer := .popStore head (s.memory.cell head) } := by
  have safe := inv.read_safe pc
  have ok := inv.consumer
  have reads := inv.reads
  rw [pc] at ok reads
  obtain ⟨here, nonempty⟩ := ok
  have own : (s.memory.access .consumer head false).view .consumer = (s.memory.view .consumer).tick .consumer :=
    Memory.access_self Thread.consumer head false
  have other : (s.memory.access .consumer head false).view .producer = s.memory.view .producer :=
    Memory.access_of_ne (show Thread.producer ≠ .consumer by decide) head false
  have index : head = (s.memory.view .consumer).known .consumer % c.value := here.trans (by rw [reads]; rfl)
  have stored := inv.slots s.popped.length (Nat.le_refl _) (nonempty.trans_le inv.consumer_behind)
  refine ⟨inv.sound.access .consumer head false, inv.tails, inv.heads, inv.fifo, ?_, ?_, inv.slots, ?_, ?_,
    inv.regular_access index (by decide), inv.raceFree_access false safe, ?_, ?_⟩
  · rw [own]
    exact inv.seen
  · rw [other]
    exact inv.room
  · rw [other]
    exact inv.writes
  · rw [own, View.tick_known, reads]
    rfl
  · exact inv.producer.frame rfl (by rw [other]) rfl (Nat.le_refl _)
  · refine ⟨here, ?_, ?_⟩
    · rw [own]
      exact nonempty
    · rw [here]
      exact stored

theorem range_snoc {n k : Nat} {values : List Nat} (all : values = (List.range (n + 1)).map fun i => i % k) :
    values ++ [(n + 1) % k] = (List.range (n + 1 + 1)).map fun i => i % k := by
  rw [List.range_succ, List.map_append, ← all]
  rfl

theorem regular_store (inv : Inv c total s) (t : Thread) (l : Atomic) (value : l.Value) :
    ∀ a ∈ (s.memory.store t l value).accesses,
      Regular c a ∧ a.time < ((s.memory.store t l value).view a.thread).known a.thread := by
  intro a member
  rw [Memory.store_known]
  exact inv.regular a member

theorem publish (inv : Inv c total s) {v : T} {next : Nat} (pc : s.producer = .pushStore v next) :
    Inv c total { s with
      memory := s.memory.store .producer .tail next
      producer := .pushed v true
      pushed := s.pushed ++ [v] } := by
  have ok := inv.producer
  have writes := inv.writes
  rw [pc] at ok writes
  obtain ⟨next_eq, space, stored⟩ := ok
  have order := inv.order
  have size : (s.pushed ++ [v]).length = s.pushed.length + 1 := by simp
  have own : ((s.memory.store .producer .tail next).view .producer) =
      (s.memory.view .producer).see .tail (s.memory.history .tail).length := Memory.store_self Thread.producer _ _
  have other : (s.memory.store .producer .tail next).view .consumer = s.memory.view .consumer :=
    Memory.store_of_ne (show Thread.consumer ≠ .producer by decide) _ _
  have known : (handed total).holds .tail (s.memory.history .tail).length
      ((s.memory.view .producer).see .tail (s.memory.history .tail).length) := by
    change (s.memory.history .tail).length ≤ (s.memory.view .producer).known .producer
    rw [inv.tail_length, writes]
    rfl
  refine ⟨inv.sound.store (l := .tail) next known, ?_, ?_, ?_, ?_, ?_, ?_, ?_, ?_, inv.regular_store _ _ _,
    inv.raceFree, trivial, ?_⟩
  · rw [Memory.store_history_self, List.map_append, List.map_singleton, size, next_eq]
    exact range_snoc inv.tails
  · rw [Memory.store_history_of_ne (show Atomic.head ≠ .tail by decide)]
    exact inv.heads
  · change s.popped = (s.pushed ++ [v]).take s.popped.length
    rw [List.take_append_of_le_length order]
    exact inv.fifo
  · rw [other]
    exact inv.seen
  · rw [own, size, View.see_latest_of_ne _ (by decide)]
    exact space
  · intro i low high
    rw [size] at high
    change (s.pushed ++ [v])[i]? = some (s.memory.cell (i % c.value))
    by_cases old : i < s.pushed.length
    · rw [List.getElem?_append_left old]
      exact inv.slots i low old
    · have last : i = s.pushed.length := by omega
      rw [last, stored]
      simp
  · rw [Memory.store_known, writes, size]
    rfl
  · rw [Memory.store_known]
    exact inv.reads
  · exact inv.consumer.frame rfl (by rw [other]) (List.prefix_append _ _)

theorem take (inv : Inv c total s) {head : Nat} {out : T} (pc : s.consumer = .popStore head out) :
    Inv c total { s with
      memory := s.memory.store .consumer .head ((head + 1) &&& c.kMask)
      consumer := .popped (some out)
      popped := s.popped ++ [out] } := by
  have ok := inv.consumer
  have reads := inv.reads
  rw [pc] at ok reads
  obtain ⟨same, nonempty, read⟩ := ok
  have size : (s.popped ++ [out]).length = s.popped.length + 1 := by simp
  have own : (s.memory.store .consumer .head ((head + 1) &&& c.kMask)).view .consumer =
      (s.memory.view .consumer).see .head (s.memory.history .head).length := Memory.store_self Thread.consumer _ _
  have other : (s.memory.store .consumer .head ((head + 1) &&& c.kMask)).view .producer = s.memory.view .producer :=
    Memory.store_of_ne (show Thread.producer ≠ .consumer by decide) _ _
  have known : (handed total).holds .head (s.memory.history .head).length
      ((s.memory.view .consumer).see .head (s.memory.history .head).length) := by
    change (s.memory.history .head).length ≤ (s.memory.view .consumer).known .consumer
    rw [inv.head_length, reads]
    rfl
  have next : (head + 1) &&& c.kMask = (s.popped.length + 1) % c.value := by
    rw [c.masked, same, Nat.mod_add_mod]
  refine ⟨inv.sound.store (l := .head) _ known, ?_, ?_, ?_, ?_, ?_, ?_, ?_, ?_, inv.regular_store _ _ _, inv.raceFree,
    ?_, trivial⟩
  · rw [Memory.store_history_of_ne (show Atomic.tail ≠ .head by decide)]
    exact inv.tails
  · rw [Memory.store_history_self, List.map_append, List.map_singleton, size, next]
    exact range_snoc inv.heads
  · rw [size, List.take_add_one, read, ← inv.fifo]
    rfl
  · rw [own, size, View.see_latest_of_ne _ (by decide)]
    exact nonempty
  · rw [other]
    exact inv.room
  · intro i low high
    rw [size] at low
    exact inv.slots i (by omega) high
  · rw [Memory.store_known]
    exact inv.writes
  · rw [Memory.store_known, reads, size]
    rfl
  · exact inv.producer.frame rfl (by rw [other]) rfl (size ▸ Nat.le_succ _)

theorem finish (inv : Inv c total s) (all : total ≤ s.pushed.length) :
    Inv c total { s with memory := s.memory.store .producer .producerDone true } := by
  have known : (handed total).holds .producerDone (s.memory.history .producerDone).length
      ((s.memory.view .producer).see .producerDone (s.memory.history .producerDone).length) := by
    intro _
    rw [View.see_latest_of_ne _ (by decide), inv.producer_own]
    exact all
  have own : (s.memory.store .producer .producerDone true).view .producer =
      (s.memory.view .producer).see .producerDone (s.memory.history .producerDone).length :=
    Memory.store_self Thread.producer _ _
  have other : (s.memory.store .producer .producerDone true).view .consumer = s.memory.view .consumer :=
    Memory.store_of_ne (show Thread.consumer ≠ .producer by decide) _ _
  have head : ((s.memory.store .producer .producerDone true).view .producer).latest .head =
      (s.memory.view .producer).latest .head := by rw [own, View.see_latest_of_ne _ (by decide)]
  refine ⟨inv.sound.store (l := .producerDone) _ known, ?_, ?_, inv.fifo, ?_, ?_, inv.slots, ?_, ?_,
    inv.regular_store _ _ _, inv.raceFree, ?_, ?_⟩
  · rw [Memory.store_history_of_ne (show Atomic.tail ≠ .producerDone by decide)]
    exact inv.tails
  · rw [Memory.store_history_of_ne (show Atomic.head ≠ .producerDone by decide)]
    exact inv.heads
  · rw [other]
    exact inv.seen
  · rw [head]
    exact inv.room
  · rw [Memory.store_known]
    exact inv.writes
  · rw [Memory.store_known]
    exact inv.reads
  · exact inv.producer.frame rfl head rfl (Nat.le_refl _)
  · exact inv.consumer.frame rfl (by rw [other]) List.prefix_rfl

end Inv

theorem size_mod (c : Capacity) {a b : Nat} (low : b ≤ a) (high : a < b + c.value) :
    size c (a % c.value) (b % c.value) = a - b := by
  have two := c.value_ge
  have width : c.value ∣ 2 ^ 64 := Nat.pow_dvd_pow 2 (Nat.le_of_lt c.fits)
  have fits : b % c.value ≤ 2 ^ 64 :=
    (Nat.le_of_lt (Nat.mod_lt _ (by omega))).trans (Nat.le_of_dvd (by decide) width)
  have back : a % c.value + 2 ^ 64 - b % c.value + b % c.value = a % c.value + 2 ^ 64 := by omega
  have same : a % c.value + 2 ^ 64 - b % c.value + b % c.value ≡ a - b + b % c.value [MOD c.value] :=
    calc a % c.value + 2 ^ 64 - b % c.value + b % c.value
        = a % c.value + 2 ^ 64 := back
      _ ≡ a + 0 [MOD c.value] := (Nat.mod_modEq _ _).add (Nat.modEq_zero_iff_dvd.mpr width)
      _ = a - b + b := by omega
      _ ≡ a - b + b % c.value [MOD c.value] := (Nat.mod_modEq _ _).symm.add_left _
  have distance := same.add_right_cancel'
  rw [size, c.masked, Nat.mod_mod_of_dvd _ width, distance, Nat.mod_eq_of_lt (by omega)]

structure ProducerMoved (c : Capacity) (total : Nat) (s s' : State T) : Prop where
  inv : Inv c total s'
  consumer : s'.consumer = s.consumer
  popped : s'.popped = s.popped
  view : s'.memory.view .consumer = s.memory.view .consumer
  done : s'.memory.history .producerDone = s.memory.history .producerDone
  push : ∀ v, s.producer.InPush v →
    (s'.pushed = s.pushed ∧ s'.producer.InPush v) ∨ (s'.pushed = s.pushed ++ [v] ∧ s'.producer = .pushed v true)
  size : s.producer.InSize → s'.pushed = s.pushed ∧ s'.producer.InSize
  refused : ∀ v, s'.producer = .pushed v false →
    (s.memory.view .producer).latest .head + c.value ≤ s.pushed.length + 1

theorem Inv.producer_head (inv : Inv c total s) {i : Nat} {r : Nat × Shared T}
    (taken : s.memory.load .acquire .producer .head i = some r) :
    r.1 = i % c.value ∧ (s.memory.view .producer).latest .head ≤ i ∧ i ≤ s.popped.length := by
  obtain ⟨-, newer, ⟨msg, stored, value⟩, -⟩ := inv.load (l := .head) (.inl rfl) taken
  obtain ⟨here, bound⟩ := stored_value inv.heads stored
  exact ⟨value.symm.trans here, newer, bound⟩

theorem Inv.producer_tail (inv : Inv c total s) {order : Order} {i : Nat} {r : Nat × Shared T}
    (taken : s.memory.load order .producer .tail i = some r) : r.1 = s.pushed.length % c.value := by
  obtain ⟨-, newer, ⟨msg, stored, value⟩, -⟩ := inv.load (l := .tail) (.inr rfl) taken
  obtain ⟨here, bound⟩ := stored_value inv.tails stored
  change (s.memory.view .producer).latest .tail ≤ i at newer
  rw [inv.producer_own] at newer
  rw [← value, here, Nat.le_antisymm bound newer]

-- The slot after tail_ is head_'s exactly when Capacity - 1 pushes lie behind the index read.
theorem Inv.full_at (inv : Inv c total s) {i : Nat} (newer : (s.memory.view .producer).latest .head ≤ i)
    (bound : i ≤ s.popped.length) :
    (s.pushed.length + 1) % c.value = i % c.value ↔ s.pushed.length + 1 = i + c.value := by
  have room := inv.room
  have order := inv.order
  constructor
  · intro same
    rw [← Nat.add_mod_right i] at same
    exact c.mod_inj (i + 1) (by omega) (by omega) (by omega) (by omega) same
  · intro same
    rw [same, Nat.add_mod_right]

theorem ProducerMoved.load (inv : Inv c total s) {order : Order} {l : Atomic} {i : Nat} {r : l.Value × Shared T}
    (allowed : order = .acquire ∨ Thread.producer = l.writer) (taken : s.memory.load order .producer l i = some r)
    (pc : Producer T) (still : unstored pc = unstored s.producer)
    (ok : i ≤ (r.2.view .producer).latest l → (s.memory.view .producer) ≤ r.2.view .producer →
      ProducerOk c { s with memory := r.2 } pc)
    (push : ∀ v, s.producer.InPush v → pc.InPush v) (size : s.producer.InSize → pc.InSize)
    (refused : ∀ v, pc = .pushed v false → (s.memory.view .producer).latest .head + c.value ≤ s.pushed.length + 1) :
    ProducerMoved c total s { s with memory := r.2, producer := pc } := by
  obtain ⟨grown, -, -, v, same, newer, seen⟩ := inv.load allowed taken
  have own : r.2.view .producer = v := same ▸ Memory.setView_self _ _
  refine ⟨grown.producer_pc pc still (ok (own ▸ seen) (own ▸ newer)), rfl, rfl, ?_, ?_,
    fun w inPush => .inl ⟨rfl, push w inPush⟩, fun inSize => ⟨rfl, size inSize⟩, refused⟩
  · rw [same]
    exact Memory.setView_of_ne (by decide) _
  · rw [same]
    rfl

theorem ProducerMoved.headLoad (inv : Inv c total s) {v : T} {tail i : Nat} {r : Nat × Shared T}
    (pc : s.producer = .pushLoadHead v tail) (loaded : s.memory.load .acquire .producer .head i = some r) :
    ProducerMoved c total s { s with
      memory := r.2
      producer := if (tail + 1) &&& c.kMask = r.1 then .pushed v false
        else .pushWrite v tail ((tail + 1) &&& c.kMask) } := by
  have here := inv.producer
  rw [pc] at here
  change tail = s.pushed.length % c.value at here
  obtain ⟨value, newer, bound⟩ := inv.producer_head loaded
  have next : (tail + 1) &&& c.kMask = (s.pushed.length + 1) % c.value := by rw [c.masked, here, Nat.mod_add_mod]
  have full : (tail + 1) &&& c.kMask = r.1 ↔ s.pushed.length + 1 = i + c.value := by
    rw [next, value]
    exact inv.full_at newer bound
  refine ProducerMoved.load inv (.inl rfl) loaded _ (by rw [pc]; split <;> rfl) (fun seen _ => ?_) ?_
    (by rw [pc]; exact False.elim) ?_
  · split
    · trivial
    next free =>
      rw [full] at free
      refine ⟨here, next, ?_⟩
      change s.pushed.length + 1 < (r.2.view .producer).latest .head + c.value
      have room := inv.room
      omega
  · rw [pc]
    intro w same
    split
    · exact ⟨same, rfl⟩
    · exact same
  · intro w returned
    split at returned
    next refused =>
      have read := full.mp refused
      omega
    · cases returned

theorem producerStep_moved (inv : Inv c total s) {i : Nat} (taken : producerStep c s i = some s') :
    ProducerMoved c total s s' := by
  unfold producerStep at taken
  cases pc : s.producer with
  | pushLoadTail v =>
    rw [pc] at taken
    obtain ⟨r, loaded, rfl⟩ := Option.map_eq_some_iff.mp taken
    exact ProducerMoved.load inv (.inr rfl) loaded _ (by rw [pc]; rfl) (fun _ _ => inv.producer_tail loaded)
      (by rw [pc]; exact fun _ => id) (by rw [pc]; exact id) (by simp)
  | pushLoadHead v tail =>
    rw [pc] at taken
    obtain ⟨r, loaded, rfl⟩ := Option.map_eq_some_iff.mp taken
    exact .headLoad inv pc loaded
  | pushWrite v tail next =>
    rw [pc] at taken
    cases taken
    refine ⟨inv.write pc, rfl, rfl, Memory.write_of_ne (by decide) _ _, rfl, ?_, ?_, ?_⟩
    · rw [pc]
      exact fun w same => .inl ⟨rfl, same⟩
    · rw [pc]
      exact False.elim
    · simp
  | pushStore v next =>
    rw [pc] at taken
    cases taken
    refine ⟨inv.publish pc, rfl, rfl, Memory.store_of_ne (by decide) _ _, Memory.store_history_of_ne (by decide) _ _,
      ?_, ?_, ?_⟩
    · rw [pc]
      rintro w rfl
      exact .inr ⟨rfl, rfl⟩
    · rw [pc]
      exact False.elim
    · simp
  | sizeLoadTail =>
    rw [pc] at taken
    obtain ⟨r, loaded, rfl⟩ := Option.map_eq_some_iff.mp taken
    exact ProducerMoved.load inv (.inl rfl) loaded _ (by rw [pc]; rfl) (fun _ _ => inv.producer_tail loaded)
      (by rw [pc]; exact fun _ => False.elim) (by rw [pc]; exact id) (by simp)
  | sizeLoadHead tail =>
    have here := inv.producer
    rw [pc] at taken here
    change tail = s.pushed.length % c.value at here
    obtain ⟨r, loaded, rfl⟩ := Option.map_eq_some_iff.mp taken
    obtain ⟨value, newer, bound⟩ := inv.producer_head loaded
    refine ProducerMoved.load inv (.inl rfl) loaded _ (by rw [pc]; rfl) (fun _ _ => ?_)
      (by rw [pc]; exact fun _ => False.elim) (by rw [pc]; exact id) (by simp)
    have order := inv.order
    have room := inv.room
    have occ : size c tail r.1 = s.pushed.length - i := by
      rw [here, value]
      exact size_mod c (bound.trans order) (by omega)
    change s.pushed.length ≤ s.popped.length + size c tail r.1 ∧ size c tail r.1 < c.value
    rw [occ]
    omega
  | idle | pushed v ok | sized n =>
    rw [pc] at taken
    cases taken

structure ConsumerMoved (c : Capacity) (total : Nat) (s s' : State T) : Prop where
  inv : Inv c total s'
  producer : s'.producer = s.producer
  pushed : s'.pushed = s.pushed
  sees : (s.memory.view .consumer).latest .tail ≤ (s'.memory.view .consumer).latest .tail
  done : s'.memory.history .producerDone = s.memory.history .producerDone
  pop : s.consumer.InPop →
    (s'.popped = s.popped ∧ s'.consumer.InPop) ∨
      (∃ out, s'.popped = s.popped ++ [out] ∧ s'.consumer = .popped (some out)) ∨
      (s'.popped = s.popped ∧ s'.consumer = .popped none ∧
        (s.memory.view .consumer).latest .tail ≤ s.popped.length)

theorem Inv.consumer_tail (inv : Inv c total s) {i : Nat} {r : Nat × Shared T}
    (taken : s.memory.load .acquire .consumer .tail i = some r) :
    r.1 = i % c.value ∧ (s.memory.view .consumer).latest .tail ≤ i ∧ i ≤ s.pushed.length := by
  obtain ⟨-, newer, ⟨msg, stored, value⟩, -⟩ := inv.load (l := .tail) (.inl rfl) taken
  obtain ⟨here, bound⟩ := stored_value inv.tails stored
  exact ⟨value.symm.trans here, newer, bound⟩

theorem Inv.consumer_head (inv : Inv c total s) {order : Order} {i : Nat} {r : Nat × Shared T}
    (taken : s.memory.load order .consumer .head i = some r) : r.1 = s.popped.length % c.value := by
  obtain ⟨-, newer, ⟨msg, stored, value⟩, -⟩ := inv.load (l := .head) (.inr rfl) taken
  obtain ⟨here, bound⟩ := stored_value inv.heads stored
  change (s.memory.view .consumer).latest .head ≤ i at newer
  rw [inv.consumer_own] at newer
  rw [← value, here, Nat.le_antisymm bound newer]

-- head_ equals the index read exactly when every push up to that store is popped.
theorem Inv.empty_at (inv : Inv c total s) {i : Nat} (newer : (s.memory.view .consumer).latest .tail ≤ i)
    (bound : i ≤ s.pushed.length) : s.popped.length % c.value = i % c.value ↔ i = s.popped.length := by
  have seen := inv.seen
  have room := inv.room
  have behind := inv.producer_behind
  constructor
  · intro same
    exact (c.mod_inj s.popped.length (Nat.le_refl _) (by omega) (by omega) (by omega) same).symm
  · rintro rfl
    rfl

theorem ConsumerMoved.load (inv : Inv c total s) {order : Order} {l : Atomic} {i : Nat} {r : l.Value × Shared T}
    (allowed : order = .acquire ∨ Thread.consumer = l.writer) (taken : s.memory.load order .consumer l i = some r)
    (pc : Consumer T) (still : unreleased pc = unreleased s.consumer)
    (ok : i ≤ (r.2.view .consumer).latest l → ConsumerOk c { s with memory := r.2 } pc)
    (pop : s.consumer.InPop → pc.InPop ∨
      (pc = .popped none ∧ (s.memory.view .consumer).latest .tail ≤ s.popped.length)) :
    ConsumerMoved c total s { s with memory := r.2, consumer := pc } := by
  obtain ⟨grown, -, -, v, same, newer, seen⟩ := inv.load allowed taken
  have own : r.2.view .consumer = v := same ▸ Memory.setView_self _ _
  refine ⟨grown.consumer_pc pc still (ok (own ▸ seen)), rfl, rfl, ?_, ?_, fun inPop => ?_⟩
  · exact own ▸ newer.1 .tail
  · rw [same]
    rfl
  · rcases pop inPop with still | ⟨empty, drained⟩
    · exact .inl ⟨rfl, still⟩
    · exact .inr (.inr ⟨rfl, empty, drained⟩)

theorem ConsumerMoved.tailLoad (inv : Inv c total s) {head i : Nat} {r : Nat × Shared T}
    (pc : s.consumer = .popLoadTail head) (loaded : s.memory.load .acquire .consumer .tail i = some r) :
    ConsumerMoved c total s { s with
      memory := r.2
      consumer := if head = r.1 then .popped none else .popRead head } := by
  have here := inv.consumer
  rw [pc] at here
  change head = s.popped.length % c.value at here
  obtain ⟨value, newer, bound⟩ := inv.consumer_tail loaded
  have seen := inv.seen
  have empty : head = r.1 ↔ i = s.popped.length := by
    rw [here, value]
    exact inv.empty_at newer bound
  refine ConsumerMoved.load inv (.inl rfl) loaded _ (by rw [pc]; split <;> rfl) (fun latest => ?_) fun _ => ?_
  · split
    · trivial
    next nonempty =>
      rw [empty] at nonempty
      refine ⟨here, ?_⟩
      change s.popped.length < (r.2.view .consumer).latest .tail
      omega
  · split
    next drained =>
      rw [empty] at drained
      exact .inr ⟨rfl, by omega⟩
    · exact .inl trivial

theorem consumerStep_moved (inv : Inv c total s) {i : Nat} (taken : consumerStep c s i = some s') :
    ConsumerMoved c total s s' := by
  unfold consumerStep at taken
  cases pc : s.consumer with
  | popLoadHead =>
    rw [pc] at taken
    obtain ⟨r, loaded, rfl⟩ := Option.map_eq_some_iff.mp taken
    exact ConsumerMoved.load inv (.inr rfl) loaded _ (by rw [pc]; rfl) (fun _ => inv.consumer_head loaded)
      fun _ => .inl trivial
  | popLoadTail head =>
    rw [pc] at taken
    obtain ⟨r, loaded, rfl⟩ := Option.map_eq_some_iff.mp taken
    exact .tailLoad inv pc loaded
  | popRead head =>
    rw [pc] at taken
    cases taken
    refine ⟨inv.read pc, rfl, rfl, ?_, rfl, fun _ => .inl ⟨rfl, trivial⟩⟩
    change _ ≤ ((s.memory.access .consumer head false).view .consumer).latest .tail
    rw [Memory.access_self]
    exact Nat.le_refl _
  | popStore head out =>
    rw [pc] at taken
    cases taken
    refine ⟨inv.take pc, rfl, rfl, ?_, Memory.store_history_of_ne (by decide) _ _, fun _ => ?_⟩
    case refine_2 => exact .inr (.inl ⟨out, rfl, rfl⟩)
    rw [Memory.store_self, View.see_latest_of_ne _ (by decide)]
  | sizeLoadTail =>
    rw [pc] at taken
    obtain ⟨r, loaded, rfl⟩ := Option.map_eq_some_iff.mp taken
    obtain ⟨value, newer, bound⟩ := inv.consumer_tail loaded
    exact ConsumerMoved.load inv (.inl rfl) loaded _ (by rw [pc]; rfl)
      (fun _ => ⟨i, value, inv.seen.trans newer, bound⟩) (by rw [pc]; exact False.elim)
  | sizeLoadHead tail =>
    have held := inv.consumer
    rw [pc] at taken held
    obtain ⟨k, same, low, high⟩ := held
    obtain ⟨r, loaded, rfl⟩ := Option.map_eq_some_iff.mp taken
    refine ConsumerMoved.load inv (.inl rfl) loaded _ (by rw [pc]; rfl) (fun _ => ?_) (by rw [pc]; exact False.elim)
    have room := inv.room
    have behind := inv.producer_behind
    have occ : size c tail r.1 = k - s.popped.length := by
      rw [same, inv.consumer_head loaded]
      exact size_mod c low (by omega)
    change s.popped.length + size c tail r.1 ≤ s.pushed.length
    rw [occ]
    omega
  | idle | popped out | sized n =>
    rw [pc] at taken
    cases taken

theorem unstored_free {pc : Producer T} (free : pc.free = true) : unstored pc = 0 := by
  cases pc <;> first | rfl | cases free

theorem unreleased_free {pc : Consumer T} (free : pc.free = true) : unreleased pc = 0 := by
  cases pc <;> first | rfl | cases free

theorem init_inv (c : Capacity) (total : Nat) (blank : T) : Inv c total (init blank) where
  sound := Memory.init_sound _ _ fun l => by
    cases l with
    | producerDone => exact fun seen => absurd seen (by decide)
    | _ => exact Nat.le_refl 0
  tails := by simp [init, Memory.init, Atomic.first]
  heads := by simp [init, Memory.init, Atomic.first]
  fifo := rfl
  seen := Nat.le_refl 0
  room := by
    have two := c.value_ge
    change 0 < 0 + c.value
    omega
  slots i _ inside := absurd inside (Nat.not_lt_zero i)
  writes := rfl
  reads := rfl
  regular a member := by cases member
  raceFree := List.Pairwise.nil
  producer := trivial
  consumer := trivial

end Invariant

section Queue

variable {T : Type} (c : Capacity)

inductive Action (T : Type) where
  | push (v : T)
  | pop
  | producerSize
  | consumerSize
  | producer (i : Nat)
  | consumer (i : Nat)

def step (s : State T) : Action T → Option (State T)
  | .push v => if s.producer.free then some { s with producer := .pushLoadTail v } else none
  | .pop => if s.consumer.free then some { s with consumer := .popLoadHead } else none
  | .producerSize => if s.producer.free then some { s with producer := .sizeLoadTail } else none
  | .consumerSize => if s.consumer.free then some { s with consumer := .sizeLoadTail } else none
  | .producer i => producerStep c s i
  | .consumer i => consumerStep c s i

variable {c} {total : Nat} {s s' : State T}

theorem step_inv (inv : Inv c total s) {a : Action T} (taken : step c s a = some s') : Inv c total s' := by
  cases a with
  | producer i => exact (producerStep_moved inv taken).inv
  | consumer i => exact (consumerStep_moved inv taken).inv
  | push v | producerSize =>
    simp only [step] at taken
    split at taken
    next free =>
      cases taken
      exact inv.producer_pc _ (unstored_free free).symm trivial
    · cases taken
  | pop | consumerSize =>
    simp only [step] at taken
    split at taken
    next free =>
      cases taken
      exact inv.consumer_pc _ (unreleased_free free).symm trivial
    · cases taken

/-- The queue under its acquire loads and release stores, whatever stale index a load
reads: no slot is accessed by both threads without one access happening before the
other; what is popped is a first part of what is pushed, at most Capacity - 1 behind;
the producer's size is never too small and the consumer's never too large; a pop finds
the queue empty only when it has taken every push its thread has seen, and a push finds
it full only when Capacity - 1 are left by every pop its thread has seen. -/
theorem queue_synchronizes (c : Capacity) (blank : T) (s : State T)
    (reachable : Transition.Reachable (step c) (init blank) s) :
    RaceFree s.memory.accesses ∧ s.popped <+: s.pushed ∧ s.pushed.length < s.popped.length + c.value ∧
      (∀ occ, s.producer = .sized occ → s.pushed.length ≤ s.popped.length + occ ∧ occ < c.value) ∧
      (∀ occ, s.consumer = .sized occ → s.popped.length + occ ≤ s.pushed.length) ∧
      (∀ i s', consumerStep c s i = some s' → s'.consumer = .popped none → s.consumer.InPop →
        (s.memory.view .consumer).latest .tail ≤ s.popped.length) ∧
      ∀ i s' v, producerStep c s i = some s' → s'.producer = .pushed v false →
        (s.memory.view .producer).latest .head + c.value ≤ s.pushed.length + 1 := by
  have inv : Inv c 0 s := reachable.invariant (init_inv c 0 blank) fun _ _ _ _ inv taken => step_inv inv taken
  refine ⟨inv.raceFree, ?_, ?_, ?_, ?_, ?_, ?_⟩
  · rw [inv.fifo]
    exact List.take_prefix _ _
  · exact Nat.lt_of_lt_of_le inv.room (Nat.add_le_add_right inv.producer_behind _)
  · intro occ pc
    have held := inv.producer
    rw [pc] at held
    exact held
  · intro occ pc
    have held := inv.consumer
    rw [pc] at held
    exact held
  · intro i s' taken empty running
    rcases (consumerStep_moved inv taken).pop running with ⟨-, still⟩ | ⟨out, -, taken⟩ | ⟨-, -, drained⟩
    · rw [empty] at still
      exact still.elim
    · rw [empty] at taken
      cases taken
    · exact drained
  · intro i s' v taken refused
    exact (producerStep_moved inv taken).refused v refused

end Queue

-- The consumer reads the first store of tail_ after the producer has made the second.
theorem queue_synchronizes_stale :
    let c : Capacity := ⟨1, by decide, by decide⟩
    ∃ s, Transition.execute (step c) (init 0)
        [.push 7, .producer 0, .producer 0, .producer 0, .producer 0, .pop, .consumer 0, .consumer 0] = some s ∧
      s.consumer = .popped none ∧ s.pushed = [7] ∧ RaceFree s.memory.accesses := by
  intro c
  have outcome : (Transition.execute (step c) (init 0)
      [.push 7, .producer 0, .producer 0, .producer 0, .producer 0, .pop, .consumer 0, .consumer 0]).map
        (fun s => (s.consumer, s.pushed)) = some (.popped none, [7]) := by decide
  obtain ⟨s, ran, shown⟩ := Option.map_eq_some_iff.mp outcome
  have synchronizes := queue_synchronizes c 0 s (Transition.Reachable.start.execute ran)
  exact ⟨s, ran, congrArg Prod.fst shown, congrArg Prod.snd shown, synchronizes.1⟩

end MemoryOrders

end ItchLob.Pipeline
