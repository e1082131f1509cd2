import Mathlib
import ItchLob.Shared.Transition

set_option autoImplicit false

namespace ItchLob.Pipeline

/-- Capacity is a power of two that a size_t can hold; a queue of one slot could
never hold an element. -/
structure Capacity where
  bits : Nat
  two : 1 ≤ bits
  fits : bits < 64

namespace Capacity

def value (c : Capacity) : Nat := 2 ^ c.bits

def kMask (c : Capacity) : Nat := c.value - 1

theorem value_ge (c : Capacity) : 2 ≤ c.value :=
  Nat.pow_le_pow_right (Nat.succ_pos 1) c.two

theorem masked (c : Capacity) (i : Nat) : i &&& c.kMask = i % c.value :=
  Nat.and_two_pow_sub_one_eq_mod i c.bits

theorem mod_inj (c : Capacity) (base : Nat) {i j : Nat} (low : base ≤ i) (high : i < base + c.value)
    (low' : base ≤ j) (high' : j < base + c.value) (same : i % c.value = j % c.value) : i = j := by
  have forward : i - j = 0 := by
    rw [← Nat.mod_eq_of_lt (show i - j < c.value by omega)]
    exact Nat.sub_mod_eq_zero_of_mod_eq same
  have backward : j - i = 0 := by
    rw [← Nat.mod_eq_of_lt (show j - i < c.value by omega)]
    exact Nat.sub_mod_eq_zero_of_mod_eq same.symm
  omega

end Capacity

namespace SpscQueue

/-- Each constructor is the next access of the producer's running call, with the
locals it has read so far. `pushed` and `sized` are returned calls. -/
inductive Producer (T : Type) where
  | idle
  | pushLoadTail (v : T)
  | pushLoadHead (v : T) (tail : Nat)
  | pushWrite (v : T) (tail next : Nat)
  | pushStore (v : T) (next : Nat)
  | pushed (v : T) (ok : Bool)
  | sizeLoadTail
  | sizeLoadHead (tail : Nat)
  | sized (n : Nat)
  deriving DecidableEq, Repr

inductive Consumer (T : Type) where
  | idle
  | popLoadHead
  | popLoadTail (head : Nat)
  | popRead (head : Nat)
  | popStore (head : Nat) (out : T)
  | popped (out : Option T)
  | sizeLoadTail
  | sizeLoadHead (tail : Nat)
  | sized (n : Nat)
  deriving DecidableEq, Repr

def Producer.free {T : Type} : Producer T → Bool
  | .idle => true
  | .pushed _ _ => true
  | .sized _ => true
  | _ => false

def Consumer.free {T : Type} : Consumer T → Bool
  | .idle => true
  | .popped _ => true
  | .sized _ => true
  | _ => false

@[simp] theorem Producer.free_pushed {T : Type} (v : T) (ok : Bool) : (Producer.pushed v ok).free = true := rfl
@[simp] theorem Consumer.free_popped {T : Type} (out : Option T) : (Consumer.popped out).free = true := rfl

/-- The two histories are ghosts: what successful pushes put in and successful
pops took out, in order. -/
structure State (T : Type) where
  buf : Nat → T
  head : Nat := 0
  tail : Nat := 0
  producer : Producer T := .idle
  consumer : Consumer T := .idle
  pushed : List T := []
  popped : List T := []

inductive Move (T : Type) where
  | push (v : T)
  | pop
  | producerSize
  | consumerSize
  | producer
  | consumer

section Step

variable {T : Type} (c : Capacity)

def init (blank : T) : State T := { buf := fun _ => blank }

def size (tail head : Nat) : Nat := (tail + 2 ^ 64 - head) % 2 ^ 64 &&& c.kMask

def producerStep (s : State T) : Option (State T) :=
  match s.producer with
  | .pushLoadTail v => some { s with producer := .pushLoadHead v s.tail }
  | .pushLoadHead v tail =>
    let next := (tail + 1) &&& c.kMask
    if next = s.head then some { s with producer := .pushed v false }
    else some { s with producer := .pushWrite v tail next }
  | .pushWrite v tail next =>
    some { s with buf := fun i => if i = tail then v else s.buf i, producer := .pushStore v next }
  | .pushStore v next =>
    some { s with tail := next, producer := .pushed v true, pushed := s.pushed ++ [v] }
  | .sizeLoadTail => some { s with producer := .sizeLoadHead s.tail }
  | .sizeLoadHead tail => some { s with producer := .sized (size c tail s.head) }
  | _ => none

def consumerStep (s : State T) : Option (State T) :=
  match s.consumer with
  | .popLoadHead => some { s with consumer := .popLoadTail s.head }
  | .popLoadTail head =>
    if head = s.tail then some { s with consumer := .popped none }
    else some { s with consumer := .popRead head }
  | .popRead head => some { s with consumer := .popStore head (s.buf head) }
  | .popStore head out =>
    some { s with
      head := (head + 1) &&& c.kMask
      consumer := .popped (some out)
      popped := s.popped ++ [out] }
  | .sizeLoadTail => some { s with consumer := .sizeLoadHead s.tail }
  | .sizeLoadHead tail => some { s with consumer := .sized (size c tail s.head) }
  | _ => none

def step (s : State T) : Move T → Option (State T)
  | .push v => if s.producer.free then some { s with producer := .pushLoadTail v } else none
  | .pop => if s.consumer.free then some { s with consumer := .popLoadHead } else none
  | .producerSize => if s.producer.free then some { s with producer := .sizeLoadTail } else none
  | .consumerSize => if s.consumer.free then some { s with consumer := .sizeLoadTail } else none
  | .producer => producerStep c s
  | .consumer => consumerStep c s

end Step

def State.held {T : Type} (s : State T) : Nat := s.pushed.length - s.popped.length

section Invariant

variable {T : Type} (c : Capacity)

def ProducerOk (s : State T) : Producer T → Prop
  | .pushLoadHead _ tail => tail = s.tail
  | .pushWrite _ tail next =>
    tail = s.tail ∧ next = (s.pushed.length + 1) % c.value ∧
      s.pushed.length + 1 < s.popped.length + c.value
  | .pushStore v next =>
    next = (s.pushed.length + 1) % c.value ∧ s.pushed.length + 1 < s.popped.length + c.value ∧
      s.buf (s.pushed.length % c.value) = v
  | _ => True

def ConsumerOk (s : State T) : Consumer T → Prop
  | .popLoadTail head => head = s.head
  | .popRead head => head = s.head ∧ s.popped.length < s.pushed.length
  | .popStore head out =>
    head = s.head ∧ s.popped.length < s.pushed.length ∧ s.pushed[s.popped.length]? = some out
  | _ => True

structure Inv (s : State T) : Prop where
  tail : s.tail = s.pushed.length % c.value
  head : s.head = s.popped.length % c.value
  fifo : s.popped = s.pushed.take s.popped.length
  order : s.popped.length ≤ s.pushed.length
  room : s.pushed.length < s.popped.length + c.value
  slots : ∀ i, s.popped.length ≤ i → i < s.pushed.length → s.pushed[i]? = some (s.buf (i % c.value))
  producer : ProducerOk c s s.producer
  consumer : ConsumerOk s s.consumer

variable {c}

theorem init_inv (blank : T) : Inv c (init blank) where
  tail := by simp [init]
  head := by simp [init]
  fifo := rfl
  order := Nat.le_refl _
  room := by
    have := c.value_ge
    simp only [init, List.length_nil]
    omega
  slots i _ inside := by simp [init] at inside
  producer := trivial
  consumer := trivial

variable {s s' : State T}

theorem Inv.producer_pc (inv : Inv c s) (pc : Producer T) (ok : ProducerOk c s pc) :
    Inv c { s with producer := pc } :=
  ⟨inv.tail, inv.head, inv.fifo, inv.order, inv.room, inv.slots, by cases pc <;> exact ok, by
    have held := inv.consumer
    revert held
    cases s.consumer <;> exact id⟩

theorem Inv.consumer_pc (inv : Inv c s) (pc : Consumer T) (ok : ConsumerOk s pc) :
    Inv c { s with consumer := pc } :=
  ⟨inv.tail, inv.head, inv.fifo, inv.order, inv.room, inv.slots, by
    have held := inv.producer
    revert held
    cases s.producer <;> exact id, by cases pc <;> exact ok⟩

theorem Inv.full_iff (inv : Inv c s) :
    (s.tail + 1) &&& c.kMask = s.head ↔ s.held = c.value - 1 := by
  have order := inv.order
  have room := inv.room
  have two := c.value_ge
  rw [c.masked, inv.tail, inv.head, Nat.mod_add_mod, State.held]
  constructor
  · intro same
    rw [← Nat.add_mod_right s.popped.length] at same
    have := c.mod_inj (s.popped.length + 1) (by omega) (by omega) (by omega) (by omega) same
    omega
  · intro full
    rw [show s.pushed.length + 1 = s.popped.length + c.value by omega, Nat.add_mod_right]

theorem Inv.empty_iff (inv : Inv c s) : s.head = s.tail ↔ s.held = 0 := by
  have order := inv.order
  have room := inv.room
  rw [inv.tail, inv.head, State.held]
  constructor
  · intro same
    have := c.mod_inj s.popped.length (Nat.le_refl _) (by omega) order room same
    omega
  · intro empty
    rw [show s.pushed.length = s.popped.length by omega]

theorem Inv.write (inv : Inv c s) {v : T} {tail next : Nat} (pc : s.producer = .pushWrite v tail next) :
    Inv c { s with buf := fun i => if i = tail then v else s.buf i, producer := .pushStore v next } := by
  have ok := inv.producer
  rw [pc] at ok
  obtain ⟨here, next_eq, space⟩ := ok
  rw [inv.tail] at here
  refine ⟨inv.tail, inv.head, inv.fifo, inv.order, inv.room, ?_, ⟨next_eq, space, if_pos here.symm⟩, ?_⟩
  · -- The written slot belongs to none of the elements still held.
    intro i low high
    change s.popped.length ≤ i at low
    change i < s.pushed.length at high
    have order := inv.order
    have apart : i % c.value ≠ tail := by
      rw [here]
      intro same
      have := c.mod_inj s.popped.length low (by omega) (by omega) (by omega) same
      omega
    rw [inv.slots i low high]
    exact congrArg some (if_neg apart).symm
  · have held := inv.consumer
    revert held
    cases s.consumer <;> exact id

theorem Inv.publish (inv : Inv c s) {v : T} {next : Nat} (pc : s.producer = .pushStore v next) :
    Inv c { s with tail := next, producer := .pushed v true, pushed := s.pushed ++ [v] } := by
  have ok := inv.producer
  rw [pc] at ok
  obtain ⟨next_eq, space, stored⟩ := ok
  have order := inv.order
  have size : (s.pushed ++ [v]).length = s.pushed.length + 1 := by simp
  refine ⟨by rw [size]; exact next_eq, inv.head, ?_, ?_, ?_, ?_, trivial, ?_⟩
  · change s.popped = (s.pushed ++ [v]).take s.popped.length
    rw [List.take_append_of_le_length order]
    exact inv.fifo
  · change s.popped.length ≤ (s.pushed ++ [v]).length
    omega
  · change (s.pushed ++ [v]).length < s.popped.length + c.value
    omega
  · intro i low high
    change i < (s.pushed ++ [v]).length at high
    change (s.pushed ++ [v])[i]? = some (s.buf (i % c.value))
    by_cases old : i < s.pushed.length
    · rw [List.getElem?_append_left old]
      exact inv.slots i low old
    · have last : i = s.pushed.length := by omega
      rw [last, stored]
      simp
  · have held := inv.consumer
    cases pc' : s.consumer with
    | popRead head =>
      rw [pc'] at held
      obtain ⟨same, nonempty⟩ := held
      exact ⟨same, by rw [size]; change s.popped.length < _; omega⟩
    | popStore head out =>
      rw [pc'] at held
      obtain ⟨same, nonempty, read⟩ := held
      refine ⟨same, by rw [size]; change s.popped.length < _; omega, ?_⟩
      rw [List.getElem?_append_left nonempty]
      exact read
    | popLoadTail head =>
      rw [pc'] at held
      exact held
    | _ => trivial

theorem Inv.take (inv : Inv c s) {head : Nat} {out : T} (pc : s.consumer = .popStore head out) :
    Inv c { s with
      head := (head + 1) &&& c.kMask
      consumer := .popped (some out)
      popped := s.popped ++ [out] } := by
  have ok := inv.consumer
  rw [pc] at ok
  obtain ⟨same, nonempty, read⟩ := ok
  have room := inv.room
  have size : (s.popped ++ [out]).length = s.popped.length + 1 := by simp
  refine ⟨inv.tail, ?_, ?_, ?_, ?_, ?_, ?_, trivial⟩
  · rw [size, c.masked, same, inv.head, Nat.mod_add_mod]
  · rw [size, List.take_add_one, read, ← inv.fifo]
    rfl
  · rw [size]
    exact nonempty
  · rw [size]
    exact Nat.lt_trans room (by omega)
  · intro i low high
    rw [size] at low
    exact inv.slots i (by omega) high
  · have held := inv.producer
    cases pc' : s.producer with
    | pushWrite v tail next =>
      rw [pc'] at held
      obtain ⟨here, next_eq, space⟩ := held
      exact ⟨here, next_eq, by rw [size]; change s.pushed.length + 1 < _; omega⟩
    | pushStore v next =>
      rw [pc'] at held
      obtain ⟨next_eq, space, stored⟩ := held
      exact ⟨next_eq, by rw [size]; change s.pushed.length + 1 < _; omega, stored⟩
    | pushLoadHead v tail =>
      rw [pc'] at held
      exact held
    | _ => trivial

theorem producerStep_inv (inv : Inv c s) (taken : producerStep c s = some s') : Inv c s' := by
  unfold producerStep at taken
  cases pc : s.producer with
  | pushLoadTail v =>
    rw [pc] at taken
    exact Option.some.inj taken ▸ inv.producer_pc _ rfl
  | pushLoadHead v tail =>
    have here := inv.producer
    rw [pc] at taken here
    change tail = s.tail at here
    subst here
    simp only at taken
    split at taken
    next => exact Option.some.inj taken ▸ inv.producer_pc _ trivial
    next free =>
      refine Option.some.inj taken ▸ inv.producer_pc _ ⟨rfl, ?_, ?_⟩
      · rw [c.masked, inv.tail, Nat.mod_add_mod]
      · have order := inv.order
        have room := inv.room
        rw [inv.full_iff, State.held] at free
        omega
  | pushWrite v tail next =>
    rw [pc] at taken
    exact Option.some.inj taken ▸ inv.write pc
  | pushStore v next =>
    rw [pc] at taken
    exact Option.some.inj taken ▸ inv.publish pc
  | sizeLoadTail | sizeLoadHead tail =>
    rw [pc] at taken
    exact Option.some.inj taken ▸ inv.producer_pc _ trivial
  | idle | pushed v ok | sized n =>
    rw [pc] at taken
    cases taken

theorem consumerStep_inv (inv : Inv c s) (taken : consumerStep c s = some s') : Inv c s' := by
  unfold consumerStep at taken
  cases pc : s.consumer with
  | popLoadHead =>
    rw [pc] at taken
    exact Option.some.inj taken ▸ inv.consumer_pc _ rfl
  | popLoadTail head =>
    have here := inv.consumer
    rw [pc] at taken here
    change head = s.head at here
    subst here
    simp only at taken
    split at taken
    next => exact Option.some.inj taken ▸ inv.consumer_pc _ trivial
    next nonempty =>
      refine Option.some.inj taken ▸ inv.consumer_pc _ ⟨rfl, ?_⟩
      rw [inv.empty_iff, State.held] at nonempty
      omega
  | popRead head =>
    have here := inv.consumer
    rw [pc] at taken here
    obtain ⟨same, nonempty⟩ := here
    refine Option.some.inj taken ▸ inv.consumer_pc _ ⟨same, nonempty, ?_⟩
    rw [inv.slots _ (Nat.le_refl _) nonempty, same, inv.head]
  | popStore head out =>
    rw [pc] at taken
    exact Option.some.inj taken ▸ inv.take pc
  | sizeLoadTail | sizeLoadHead tail =>
    rw [pc] at taken
    exact Option.some.inj taken ▸ inv.consumer_pc _ trivial
  | idle | popped out | sized n =>
    rw [pc] at taken
    cases taken

theorem step_inv (inv : Inv c s) {m : Move T} (taken : step c s m = some s') : Inv c s' := by
  cases m with
  | producer => exact producerStep_inv inv taken
  | consumer => exact consumerStep_inv inv taken
  | push v | producerSize =>
    simp only [step] at taken
    split at taken
    · exact Option.some.inj taken ▸ inv.producer_pc _ trivial
    · cases taken
  | pop | consumerSize =>
    simp only [step] at taken
    split at taken
    · exact Option.some.inj taken ▸ inv.consumer_pc _ trivial
    · cases taken

theorem reachable_inv {blank : T} (reachable : Transition.Reachable (step c) (init blank) s) : Inv c s :=
  reachable.invariant (init_inv blank) fun _ _ _ _ inv taken => step_inv inv taken

def Producer.InPush (v : T) : Producer T → Prop
  | .pushLoadTail w => w = v
  | .pushLoadHead w _ => w = v
  | .pushWrite w _ _ => w = v
  | .pushStore w _ => w = v
  | .pushed w ok => w = v ∧ ok = false
  | _ => False

def Producer.InSize : Producer T → Prop
  | .sizeLoadTail => True
  | .sizeLoadHead _ => True
  | .sized _ => True
  | _ => False

def Consumer.InPop : Consumer T → Prop
  | .popLoadHead => True
  | .popLoadTail _ => True
  | .popRead _ => True
  | .popStore _ _ => True
  | _ => False

theorem producerStep_frame (taken : producerStep c s = some s') :
    s'.consumer = s.consumer ∧ s'.popped = s.popped ∧ s'.head = s.head := by
  simp only [producerStep] at taken
  split at taken
  case h_2 => split at taken <;> cases taken <;> exact ⟨rfl, rfl, rfl⟩
  case h_7 => cases taken
  all_goals
    cases taken
    exact ⟨rfl, rfl, rfl⟩

theorem consumerStep_frame (taken : consumerStep c s = some s') :
    s'.producer = s.producer ∧ s'.pushed = s.pushed ∧ s'.tail = s.tail := by
  unfold consumerStep at taken
  split at taken
  case h_2 => split at taken <;> cases taken <;> exact ⟨rfl, rfl, rfl⟩
  case h_7 => cases taken
  all_goals
    cases taken
    exact ⟨rfl, rfl, rfl⟩

theorem producerStep_push {v : T} (running : s.producer.InPush v) (taken : producerStep c s = some s') :
    (s'.pushed = s.pushed ∧ s'.producer.InPush v) ∨
      (s'.pushed = s.pushed ++ [v] ∧ s'.producer = .pushed v true) := by
  unfold producerStep at taken
  cases pc : s.producer with
  | pushLoadHead w tail =>
    rw [pc] at taken running
    simp only at taken
    split at taken <;> cases taken
    · exact .inl ⟨rfl, running, rfl⟩
    · exact .inl ⟨rfl, running⟩
  | pushStore w next =>
    rw [pc] at taken running
    cases running
    cases taken
    exact .inr ⟨rfl, rfl⟩
  | pushLoadTail w | pushWrite w tail next =>
    rw [pc] at taken running
    cases taken
    exact .inl ⟨rfl, running⟩
  | pushed w ok =>
    rw [pc] at taken
    cases taken
  | idle | sizeLoadTail | sizeLoadHead tail | sized n =>
    rw [pc] at running
    exact running.elim

theorem producerStep_size (running : s.producer.InSize) (taken : producerStep c s = some s') :
    s'.pushed = s.pushed ∧ s'.producer.InSize := by
  unfold producerStep at taken
  cases pc : s.producer with
  | sizeLoadTail | sizeLoadHead tail =>
    rw [pc] at taken
    cases taken
    exact ⟨rfl, trivial⟩
  | sized n =>
    rw [pc] at taken
    cases taken
  | _ =>
    rw [pc] at running
    exact running.elim

theorem Inv.drained (inv : Inv c s) (empty : s.held = 0) : s.popped = s.pushed := by
  have order := inv.order
  rw [State.held] at empty
  rw [inv.fifo, show s.popped.length = s.pushed.length by omega, List.take_length]

theorem consumerStep_pop (inv : Inv c s) (running : s.consumer.InPop)
    (taken : consumerStep c s = some s') :
    (s'.popped = s.popped ∧ s'.consumer.InPop) ∨
      (∃ out, s'.popped = s.popped ++ [out] ∧ s'.consumer = .popped (some out)) ∨
      (s'.popped = s.popped ∧ s'.consumer = .popped none ∧ s.popped = s.pushed) := by
  unfold consumerStep at taken
  cases pc : s.consumer with
  | popLoadTail head =>
    have here := inv.consumer
    rw [pc] at taken here
    change head = s.head at here
    simp only at taken
    split at taken <;> cases taken
    next empty => exact .inr (.inr ⟨rfl, rfl, inv.drained (inv.empty_iff.mp (here ▸ empty))⟩)
    next => exact .inl ⟨rfl, trivial⟩
  | popStore head out =>
    rw [pc] at taken
    cases taken
    exact .inr (.inl ⟨out, rfl, rfl⟩)
  | popLoadHead | popRead head =>
    rw [pc] at taken
    cases taken
    exact .inl ⟨rfl, trivial⟩
  | idle | popped out | sizeLoadTail | sizeLoadHead tail | sized n =>
    rw [pc] at running
    exact running.elim

theorem step_producer {m : Move T} (taken : step c s m = some s') :
    (s'.producer = s.producer ∧ s'.tail = s.tail) ∨ producerStep c s = some s' ∨
      (∃ v, s' = { s with producer := .pushLoadTail v }) ∨ s' = { s with producer := .sizeLoadTail } := by
  cases m with
  | producer => exact .inr (.inl taken)
  | consumer =>
    obtain ⟨pc, -, tail⟩ := consumerStep_frame taken
    exact .inl ⟨pc, tail⟩
  | push v =>
    simp only [step] at taken
    split at taken <;> cases taken
    exact .inr (.inr (.inl ⟨v, rfl⟩))
  | producerSize =>
    simp only [step] at taken
    split at taken <;> cases taken
    exact .inr (.inr (.inr rfl))
  | pop | consumerSize =>
    simp only [step] at taken
    split at taken <;> cases taken
    exact .inl ⟨rfl, rfl⟩

theorem step_consumer {m : Move T} (taken : step c s m = some s') :
    (s'.consumer = s.consumer ∧ s'.head = s.head) ∨ consumerStep c s = some s' ∨
      s' = { s with consumer := .popLoadHead } ∨ s' = { s with consumer := .sizeLoadTail } := by
  cases m with
  | consumer => exact .inr (.inl taken)
  | producer =>
    obtain ⟨pc, -, head⟩ := producerStep_frame taken
    exact .inl ⟨pc, head⟩
  | pop =>
    simp only [step] at taken
    split at taken <;> cases taken
    exact .inr (.inr (.inl rfl))
  | consumerSize =>
    simp only [step] at taken
    split at taken <;> cases taken
    exact .inr (.inr (.inr rfl))
  | push v | producerSize =>
    simp only [step] at taken
    split at taken <;> cases taken
    exact .inl ⟨rfl, rfl⟩

theorem push_refused {m : Move T} {v : T} (taken : step c s m = some s')
    (refused : s'.producer = .pushed v false) :
    s.producer = .pushed v false ∨
      ∃ tail, s.producer = .pushLoadHead v tail ∧ (tail + 1) &&& c.kMask = s.head := by
  rcases step_producer taken with ⟨same, -⟩ | access | ⟨w, rfl⟩ | rfl
  · exact .inl (same ▸ refused)
  · unfold producerStep at access
    cases pc : s.producer with
    | pushLoadHead w tail =>
      rw [pc] at access
      simp only at access
      split at access <;> cases access <;> cases refused
      next full => exact .inr ⟨tail, rfl, full⟩
    | idle | pushed w ok | sized n =>
      rw [pc] at access
      cases access
    | _ =>
      rw [pc] at access
      cases access
      cases refused
  · cases refused
  · cases refused

theorem pop_refused {m : Move T} (taken : step c s m = some s') (refused : s'.consumer = .popped none) :
    s.consumer = .popped none ∨ ∃ head, s.consumer = .popLoadTail head ∧ head = s.tail := by
  rcases step_consumer taken with ⟨same, -⟩ | access | rfl | rfl
  · exact .inl (same ▸ refused)
  · unfold consumerStep at access
    cases pc : s.consumer with
    | popLoadTail head =>
      rw [pc] at access
      simp only at access
      split at access <;> cases access <;> cases refused
      next empty => exact .inr ⟨head, rfl, empty⟩
    | idle | popped out | sized n =>
      rw [pc] at access
      cases access
    | _ =>
      rw [pc] at access
      cases access
      cases refused
  · cases refused
  · cases refused

end Invariant

/-- The queue is a bounded FIFO under every interleaving of single accesses: pops
follow pushes, at most Capacity - 1 elements are held, each in a slot of its own
that the producer is not about to write, and a refusal is always justified by
what was held at the deciding load. -/
theorem bounded_fifo {T : Type} (c : Capacity) (blank : T) (s : State T)
    (reachable : Transition.Reachable (step c) (init blank) s) :
    s.popped <+: s.pushed ∧
    s.popped.length ≤ s.pushed.length ∧ s.held ≤ c.value - 1 ∧
    (∀ i, s.popped.length ≤ i → i < s.pushed.length →
      s.pushed[i]? = some (s.buf (i % c.value)) ∧
      ∀ v tail next, s.producer = .pushWrite v tail next → tail ≠ i % c.value) ∧
    (∀ m s' v, step c s m = some s' → s'.producer = .pushed v false →
      s.producer = .pushed v false ∨
        ∃ tail, s.producer = .pushLoadHead v tail ∧ s.held = c.value - 1) ∧
    (∀ m s', step c s m = some s' → s'.consumer = .popped none →
      s.consumer = .popped none ∨ ∃ head, s.consumer = .popLoadTail head ∧ s.held = 0) := by
  have inv := reachable_inv reachable
  have order := inv.order
  have room := inv.room
  refine ⟨?_, order, by rw [State.held]; omega, ?_, ?_, ?_⟩
  · rw [inv.fifo]
    exact List.take_prefix _ _
  · refine fun i low high => ⟨inv.slots i low high, fun v tail next pc same => ?_⟩
    have ok := inv.producer
    rw [pc] at ok
    obtain ⟨here, -, space⟩ := ok
    rw [here, inv.tail] at same
    have := c.mod_inj s.popped.length order (by omega) low (by omega) same
    omega
  · intro m s' v taken refused
    refine (push_refused taken refused).imp_right fun ⟨tail, pc, full⟩ => ⟨tail, pc, ?_⟩
    have here := inv.producer
    rw [pc] at here
    change tail = s.tail at here
    rwa [here, inv.full_iff] at full
  · intro m s' taken refused
    refine (pop_refused taken refused).imp_right fun ⟨head, pc, empty⟩ => ⟨head, pc, ?_⟩
    have here := inv.consumer
    rw [pc] at here
    change head = s.head at here
    rwa [here, inv.empty_iff] at empty

-- Capacity 2: the second push meets a full queue, and the pop sees the first.
theorem bounded_fifo_two_slots :
    let c : Capacity := ⟨1, by decide, by decide⟩
    let moves : List (Move Nat) := [.push 5, .producer, .producer, .producer, .producer, .push 6, .producer,
      .producer, .pop, .consumer, .consumer, .consumer, .consumer]
    ∃ s, Transition.execute (step c) (init 0) moves = some s ∧ s.producer = .pushed 6 false ∧
      s.consumer = .popped (some 5) ∧ s.popped <+: s.pushed ∧ s.held ≤ c.value - 1 := by
  intro c moves
  have outcome : (Transition.execute (step c) (init 0) moves).map (fun s => (s.producer, s.consumer)) =
      some (.pushed 6 false, .popped (some 5)) := by decide
  obtain ⟨s, ran, ended⟩ := Option.map_eq_some_iff.mp outcome
  obtain ⟨refused, taken⟩ := Prod.mk.inj ended
  have fifo := bounded_fifo c 0 s (Transition.Reachable.start.execute ran)
  exact ⟨s, ran, refused, taken, fifo.1, fifo.2.2.1⟩

end SpscQueue

end ItchLob.Pipeline
