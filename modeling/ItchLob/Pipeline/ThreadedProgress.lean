import ItchLob.Shared.Fairness
import ItchLob.Pipeline.Equivalence

set_option autoImplicit false

namespace ItchLob.Pipeline

namespace Threaded

open SpscQueue Fairness
open TwoThreads (Parser Builder Turn dispatchOne onQueue builderStep_inPop)

section Distance

variable {E σ : Type}

-- The parser thread's steps up to its next tail_ store, or to the store of
-- producer_done, while the queue has room.
def parserLeft (s : State E σ) : Nat :=
  match s.parser, s.queue.producer with
  | .ready, _ => 5
  | .pushing, .pushLoadTail _ => 4
  | .pushing, .pushLoadHead _ _ => 3
  | .pushing, .pushWrite _ _ _ => 2
  | .pushing, .pushStore _ _ => 1
  | .pushing, .pushed _ ok => if ok then 9 else 5
  | .sizing, .sizeLoadTail => 8
  | .sizing, .sizeLoadHead _ => 7
  | .sizing, .sized _ => 6
  | _, _ => 0

-- The book-builder thread's steps up to its next head_ store, while an envelope waits.
def popLeft (s : State E σ) : Nat :=
  match s.consumer, s.queue.consumer with
  | .loop, _ => 5
  | .drain, _ => 5
  | .checkDone, _ => 6
  | _, .popLoadHead => 4
  | _, .popLoadTail _ => 3
  | _, .popRead _ => 2
  | _, .popStore _ _ => 1
  | _, .popped out => if out.isSome then 6 else 7
  | _, _ => 0

-- Its steps out of the function, when nothing waits and nothing will come.
def exitLeft (s : State E σ) : Nat :=
  match s.consumer, s.queue.consumer with
  | .loop, _ => 9
  | .popping, .popLoadHead => 8
  | .popping, .popLoadTail _ => 7
  | .popping, .popped out => if out.isSome then 10 else 6
  | .checkDone, _ => 5
  | .drain, _ => 4
  | .draining, .popLoadHead => 3
  | .draining, .popLoadTail _ => 2
  | .draining, .popped out => if out.isSome then 5 else 1
  | _, _ => 0

def Waiting (s : State E σ) : Prop := s.queue.popped.length < s.queue.pushed.length

instance (s : State E σ) : Decidable (Waiting s) := inferInstanceAs (Decidable (_ < _))

def needed (s : State E σ) : Turn :=
  if Waiting s then .builder else if s.parser = .finished then .builder else .parser

def distance (s : State E σ) : Nat :=
  if Waiting s then popLeft s else if s.parser = .finished then exitLeft s else parserLeft s

-- Pushes, pops and the store of producer_done that are still to come.
def outstanding (produced : List E) (s : State E σ) : Nat :=
  (produced.length - s.queue.pushed.length) + (produced.length - s.queue.popped.length) +
    if s.parser = .finished then 0 else 1

def rank (produced : List E) (s : State E σ) : ℕ ×ₗ ℕ := toLex (outstanding produced s, distance s)

end Distance

section Steps

variable {E σ : Type} {c : Capacity} {dispatch : E → σ → σ} {produced : List E} {empty : σ} {s s' : State E σ}

structure ParserMove (s s' : State E σ) : Prop where
  running : s.parser ≠ .finished
  popped : s'.queue.popped = s.queue.popped
  consumer : s'.consumer = s.consumer
  inQueue : s'.queue.consumer = s.queue.consumer
  kind : (s'.queue.pushed.length = s.queue.pushed.length + 1 ∧ s'.parser ≠ .finished) ∨
    (s'.queue.pushed = s.queue.pushed ∧ s'.parser = .finished) ∨
    (s'.queue.pushed = s.queue.pushed ∧ s'.parser ≠ .finished ∧
      (¬ Waiting s → parserLeft s' < parserLeft s))

theorem not_full (queueInv : SpscQueue.Inv c s.queue.toState) (idle : ¬ Waiting s) :
    (s.queue.tail + 1) &&& c.kMask ≠ s.queue.head := by
  have two := c.value_ge
  rw [Ne, queueInv.full_iff, State.held]
  unfold Waiting at idle
  omega

theorem pushing_move (queueInv : SpscQueue.Inv c s.queue.toState) {v : E} (running : s.queue.producer.InPush v)
    (pc : s.parser = .pushing) (taken : parserStep c s = some s') : ParserMove s s' := by
  have working : s.parser ≠ .finished := by simp [pc]
  cases at_pc : s.queue.producer with
  | pushLoadTail w =>
    simp only [parserStep, TwoThreads.parserStep, pc, at_pc, onQueue, channel, SpscQueue.step, producerStep,
      Option.map_some, Option.some.injEq] at taken
    subst taken
    exact ⟨working, rfl, rfl, rfl, .inr (.inr ⟨rfl, by simp, fun _ => by simp [parserLeft, pc, at_pc]⟩)⟩
  | pushLoadHead w tail =>
    have here := queueInv.producer
    rw [at_pc] at here
    change tail = s.queue.tail at here
    subst here
    simp only [parserStep, TwoThreads.parserStep, pc, at_pc, onQueue, channel, SpscQueue.step, producerStep] at taken
    split at taken
    next full =>
      cases taken
      exact ⟨working, rfl, rfl, rfl, .inr (.inr ⟨rfl, by simp, fun idle =>
        absurd full (not_full queueInv idle)⟩)⟩
    next room =>
      cases taken
      exact ⟨working, rfl, rfl, rfl, .inr (.inr ⟨rfl, by simp, fun _ => by simp [parserLeft, pc, at_pc]⟩)⟩
  | pushWrite w tail next =>
    simp only [parserStep, TwoThreads.parserStep, pc, at_pc, onQueue, channel, SpscQueue.step, producerStep,
      Option.map_some, Option.some.injEq] at taken
    subst taken
    exact ⟨working, rfl, rfl, rfl, .inr (.inr ⟨rfl, by simp, fun _ => by simp [parserLeft, pc, at_pc]⟩)⟩
  | pushStore w next =>
    simp only [parserStep, TwoThreads.parserStep, pc, at_pc, onQueue, channel, SpscQueue.step, producerStep,
      Option.map_some, Option.some.injEq] at taken
    subst taken
    exact ⟨working, rfl, rfl, rfl, .inl ⟨by simp, by simp⟩⟩
  | pushed w ok =>
    rw [at_pc] at running
    obtain ⟨rfl, rfl⟩ := running
    simp only [parserStep, TwoThreads.parserStep, pc, at_pc, onQueue, channel, SpscQueue.step,
      Producer.free_pushed, if_true, Option.map_some, Option.some.injEq] at taken
    subst taken
    exact ⟨working, rfl, rfl, rfl, .inr (.inr ⟨rfl, by simp, fun _ => by simp [parserLeft, pc, at_pc]⟩)⟩
  | _ =>
    rw [at_pc] at running
    exact running.elim

theorem parser_move (inv : Inv c produced empty dispatch s) (queueInv : SpscQueue.Inv c s.queue.toState)
    (taken : parserStep c s = some s') : ParserMove s s' := by
  cases pc : s.parser with
  | ready =>
    have working : s.parser ≠ .finished := by simp [pc]
    simp only [parserStep, TwoThreads.parserStep, pc] at taken
    cases left : s.todo with
    | nil =>
      rw [left] at taken
      cases taken
      exact ⟨working, rfl, rfl, rfl, .inr (.inl ⟨rfl, rfl⟩)⟩
    | cons env rest =>
      rw [left] at taken
      obtain ⟨mid, onto, rfl⟩ := Option.map_eq_some_iff.mp taken
      obtain ⟨queue, moved, rfl⟩ := onQueue_eq onto
      rw [push_frame moved]
      exact ⟨working, rfl, rfl, rfl, .inr (.inr ⟨rfl, by simp, fun _ => by simp [parserLeft, pc]⟩)⟩
  | pushing =>
    obtain ⟨env, running | returned⟩ := pushing_call inv pc
    · exact pushing_move queueInv running pc taken
    · simp only [parserStep, TwoThreads.parserStep, channel_producer, pc, returned] at taken
      obtain ⟨mid, onto, rfl⟩ := Option.map_eq_some_iff.mp taken
      obtain ⟨queue, moved, rfl⟩ := onQueue_eq onto
      rw [producerSize_frame moved]
      exact ⟨by simp [pc], rfl, rfl, rfl, .inr (.inr ⟨rfl, by simp, fun _ => by simp [parserLeft, pc, returned]⟩)⟩
  | sizing =>
    have working : s.parser ≠ .finished := by simp [pc]
    have running := sizing_call inv pc
    cases at_pc : s.queue.producer with
    | sizeLoadTail | sizeLoadHead tail =>
      simp only [parserStep, TwoThreads.parserStep, pc, at_pc, onQueue, channel, SpscQueue.step, producerStep,
        Option.map_some, Option.some.injEq] at taken
      subst taken
      exact ⟨working, rfl, rfl, rfl, .inr (.inr ⟨rfl, by simp, fun _ => by simp [parserLeft, pc, at_pc]⟩)⟩
    | sized n =>
      simp only [parserStep, TwoThreads.parserStep, channel_producer, pc, at_pc, Option.some.injEq] at taken
      subst taken
      exact ⟨working, rfl, rfl, rfl, .inr (.inr ⟨rfl, by simp, fun _ => by simp [parserLeft, pc, at_pc]⟩)⟩
    | _ =>
      rw [at_pc] at running
      exact running.elim
  | finished =>
    simp only [parserStep, TwoThreads.parserStep, pc] at taken
    cases taken

structure BuilderMove (s s' : State E σ) : Prop where
  pushed : s'.queue.pushed = s.queue.pushed
  parser : s'.parser = s.parser
  inQueue : s'.queue.producer = s.queue.producer
  kind : s'.consumer = .exited ∨
    s'.queue.popped.length = s.queue.popped.length + 1 ∨
    (s'.queue.popped = s.queue.popped ∧ (Waiting s → popLeft s' < popLeft s) ∧
      (¬ Waiting s → s.parser = .finished → exitLeft s' < exitLeft s))

theorem waiting_iff (queueInv : SpscQueue.Inv c s.queue.toState) : Waiting s ↔ s.queue.head ≠ s.queue.tail := by
  rw [Ne, queueInv.empty_iff, State.held, Waiting]
  omega

theorem inPop_move (queueInv : SpscQueue.Inv c s.queue.toState) (running : s.queue.consumer.InPop)
    (pc : s.consumer = .popping ∨ s.consumer = .draining) (taken : builderStep c dispatch s = some s') :
    BuilderMove s s' := by
  have onto : onQueue (channel E c) s .consumer () = some s' := (builderStep_inPop running pc).symm.trans taken
  obtain ⟨queue, moved, rfl⟩ := onQueue_eq onto
  have here := queueInv.consumer
  simp only [SpscQueue.step, consumerStep] at moved
  cases at_pc : s.queue.consumer with
  | popLoadHead =>
    rw [at_pc] at moved
    cases moved
    refine ⟨rfl, rfl, rfl, .inr (.inr ⟨rfl, fun _ => ?_, fun _ _ => ?_⟩)⟩
    · rcases pc with pc | pc <;> simp [popLeft, pc, at_pc]
    · rcases pc with pc | pc <;> simp [exitLeft, pc, at_pc]
  | popLoadTail head =>
    rw [at_pc] at moved here
    change head = s.queue.head at here
    subst here
    simp only at moved
    split at moved
    next empty =>
      cases moved
      have idle : ¬ Waiting s := fun waits => (waiting_iff queueInv).mp waits empty
      refine ⟨rfl, rfl, rfl, .inr (.inr ⟨rfl, fun waits => absurd waits idle, fun _ _ => ?_⟩)⟩
      rcases pc with pc | pc <;> simp [exitLeft, pc, at_pc]
    next nonempty =>
      cases moved
      have waits : Waiting s := (waiting_iff queueInv).mpr nonempty
      refine ⟨rfl, rfl, rfl, .inr (.inr ⟨rfl, fun _ => ?_, fun idle => absurd waits idle⟩)⟩
      rcases pc with pc | pc <;> simp [popLeft, pc, at_pc]
  | popRead head =>
    rw [at_pc] at moved here
    cases moved
    refine ⟨rfl, rfl, rfl, .inr (.inr ⟨rfl, fun _ => ?_, fun idle => absurd here.2 idle⟩)⟩
    rcases pc with pc | pc <;> simp [popLeft, pc, at_pc]
  | popStore head out =>
    rw [at_pc] at moved
    cases moved
    exact ⟨rfl, rfl, rfl, .inr (.inl (by simp))⟩
  | _ =>
    rw [at_pc] at running
    exact running.elim

theorem builder_move (inv : Inv c produced empty dispatch s) (queueInv : SpscQueue.Inv c s.queue.toState)
    (told : s.parser = .finished → s.queue.producerDone = true) (taken : builderStep c dispatch s = some s') :
    BuilderMove s s' := by
  cases pc : s.consumer with
  | loop | drain =>
    simp only [builderStep, TwoThreads.builderStep, pc] at taken
    obtain ⟨mid, onto, rfl⟩ := Option.map_eq_some_iff.mp taken
    obtain ⟨queue, moved, rfl⟩ := onQueue_eq onto
    rw [pop_frame moved]
    exact ⟨rfl, rfl, rfl, .inr (.inr ⟨rfl, fun _ => by simp [popLeft, pc], fun _ _ => by simp [exitLeft, pc]⟩)⟩
  | checkDone =>
    simp only [builderStep, TwoThreads.builderStep, channel, pc, Option.map_some, Option.some.injEq] at taken
    subst taken
    refine ⟨rfl, rfl, rfl, .inr (.inr ⟨rfl, fun _ => ?_, fun _ finished => ?_⟩)⟩
    · cases s.queue.producerDone <;> simp [popLeft, pc]
    · simp [exitLeft, pc, told finished]
  | popping =>
    rcases popping_call inv (.inl pc) with running | ⟨out, returned⟩
    · exact inPop_move queueInv running (.inl pc) taken
    · simp only [builderStep, TwoThreads.builderStep, channel_consumer, pc, returned] at taken
      cases out with
      | some env =>
        cases taken
        exact ⟨rfl, rfl, rfl, .inr (.inr ⟨rfl, fun _ => by simp [popLeft, dispatchOne, pc, returned],
          fun _ _ => by simp [exitLeft, dispatchOne, pc, returned]⟩)⟩
      | none =>
        cases taken
        exact ⟨rfl, rfl, rfl, .inr (.inr ⟨rfl, fun _ => by simp [popLeft, pc, returned],
          fun _ _ => by simp [exitLeft, pc, returned]⟩)⟩
  | draining =>
    rcases popping_call inv (.inr pc) with running | ⟨out, returned⟩
    · exact inPop_move queueInv running (.inr pc) taken
    · simp only [builderStep, TwoThreads.builderStep, channel_consumer, pc, returned] at taken
      cases out with
      | some env =>
        cases taken
        exact ⟨rfl, rfl, rfl, .inr (.inr ⟨rfl, fun _ => by simp [popLeft, dispatchOne, pc, returned],
          fun _ _ => by simp [exitLeft, dispatchOne, pc, returned]⟩)⟩
      | none =>
        cases taken
        exact ⟨rfl, rfl, rfl, .inl rfl⟩
  | exited =>
    simp only [builderStep, TwoThreads.builderStep, pc] at taken
    cases taken

structure Returned (s : State E σ) : Prop where
  ready : s.parser = .ready → s.queue.producer.free = true
  told : s.parser = .finished → s.queue.producerDone = true
  between : s.consumer = .loop ∨ s.consumer = .checkDone ∨ s.consumer = .drain → s.queue.consumer.free = true

theorem init_returned (blank : E) : Returned (init blank produced empty) :=
  ⟨fun _ => rfl, by simp [init], fun _ => rfl⟩

theorem onQueue_pc {m : Move E} (taken : onQueue (channel E c) s m () = some s') :
    s'.parser = s.parser ∧ s'.consumer = s.consumer ∧ s'.queue.producerDone = s.queue.producerDone := by
  obtain ⟨queue, -, rfl⟩ := onQueue_eq taken
  exact ⟨rfl, rfl, rfl⟩

theorem parserStep_returned (inv : Inv c produced empty dispatch s) (queueInv : SpscQueue.Inv c s.queue.toState)
    (idle : Returned s) (taken : parserStep c s = some s') : Returned s' := by
  have move := parser_move inv queueInv taken
  suffices own : (s'.parser = .ready → s'.queue.producer.free = true) ∧
      (s'.parser = .finished → s'.queue.producerDone = true) from
    ⟨own.1, own.2, fun pc => by rw [move.inQueue]; exact idle.between (move.consumer ▸ pc)⟩
  cases pc : s.parser with
  | ready =>
    simp only [parserStep, TwoThreads.parserStep, pc] at taken
    split at taken
    · obtain ⟨mid, -, rfl⟩ := Option.map_eq_some_iff.mp taken
      exact ⟨by simp, by simp⟩
    · cases taken
      exact ⟨by simp, fun _ => rfl⟩
  | pushing =>
    simp only [parserStep, TwoThreads.parserStep, channel_producer, pc] at taken
    split at taken
    · obtain ⟨mid, -, rfl⟩ := Option.map_eq_some_iff.mp taken
      exact ⟨by simp, by simp⟩
    all_goals
      obtain ⟨same, -, -⟩ := onQueue_pc taken
      simp [same, pc]
  | sizing =>
    simp only [parserStep, TwoThreads.parserStep, channel_producer, pc] at taken
    split at taken
    next occ returned =>
      cases taken
      exact ⟨fun _ => by simp [Producer.free, returned], fun done => by cases done⟩
    next =>
      obtain ⟨same, -, -⟩ := onQueue_pc taken
      simp [same, pc]
  | finished =>
    simp only [parserStep, TwoThreads.parserStep, pc] at taken
    cases taken

theorem builderStep_returned (inv : Inv c produced empty dispatch s) (queueInv : SpscQueue.Inv c s.queue.toState)
    (idle : Returned s) (taken : builderStep c dispatch s = some s') : Returned s' := by
  have move := builder_move inv queueInv idle.told taken
  suffices own : (s'.consumer = .loop ∨ s'.consumer = .checkDone ∨ s'.consumer = .drain →
      s'.queue.consumer.free = true) ∧ s'.queue.producerDone = s.queue.producerDone from
    ⟨fun pc => by rw [move.inQueue]; exact idle.ready (move.parser ▸ pc),
      fun pc => by rw [own.2]; exact idle.told (move.parser ▸ pc), own.1⟩
  cases pc : s.consumer with
  | loop | drain =>
    simp only [builderStep, TwoThreads.builderStep, pc] at taken
    obtain ⟨mid, onto, rfl⟩ := Option.map_eq_some_iff.mp taken
    exact ⟨by simp, (onQueue_pc onto).2.2⟩
  | checkDone =>
    simp only [builderStep, TwoThreads.builderStep, channel, pc, Option.map_some, Option.some.injEq] at taken
    subst taken
    exact ⟨fun _ => idle.between (.inr (.inl pc)), rfl⟩
  | popping | draining =>
    simp only [builderStep, TwoThreads.builderStep, channel_consumer, pc] at taken
    split at taken
    next env returned =>
      cases taken
      exact ⟨fun _ => by simp [dispatchOne, returned], rfl⟩
    next returned =>
      cases taken
      exact ⟨fun _ => by simp [returned], rfl⟩
    next =>
      obtain ⟨-, same, done⟩ := onQueue_pc taken
      exact ⟨by simp [same, pc], done⟩
  | exited =>
    simp only [builderStep, TwoThreads.builderStep, pc] at taken
    cases taken

theorem parser_enabled (inv : Inv c produced empty dispatch s) (idle : Returned s)
    (running : s.parser ≠ .finished) : ∃ s', parserStep c s = some s' := by
  simp only [parserStep, TwoThreads.parserStep, channel_producer]
  cases pc : s.parser with
  | ready =>
    simp only
    split
    · simp [onQueue, channel, SpscQueue.step, idle.ready pc]
    · simp
  | pushing =>
    obtain ⟨env, inPush | returned⟩ := pushing_call inv pc
    · cases at_pc : s.queue.producer with
      | pushed w ok =>
        rw [at_pc] at inPush
        obtain ⟨rfl, rfl⟩ := inPush
        simp [at_pc, onQueue, channel, SpscQueue.step]
      | pushLoadHead w tail =>
        simp only [at_pc, onQueue, channel, SpscQueue.step, producerStep]
        split <;> simp
      | idle | sizeLoadTail | sizeLoadHead tail | sized n =>
        rw [at_pc] at inPush
        exact inPush.elim
      | _ => simp [at_pc, onQueue, channel, SpscQueue.step, producerStep]
    · simp [returned, onQueue, channel, SpscQueue.step]
  | sizing =>
    have inSize := sizing_call inv pc
    cases at_pc : s.queue.producer with
    | sizeLoadTail | sizeLoadHead tail | sized n => simp [at_pc, onQueue, channel, SpscQueue.step, producerStep]
    | _ =>
      rw [at_pc] at inSize
      exact inSize.elim
  | finished => exact absurd pc running

theorem builder_enabled (inv : Inv c produced empty dispatch s) (idle : Returned s)
    (running : s.consumer ≠ .exited) : ∃ s', builderStep c dispatch s = some s' := by
  have access (pc : s.consumer = .popping ∨ s.consumer = .draining) : ∃ s', builderStep c dispatch s = some s' := by
    rcases popping_call inv pc with inPop | ⟨out, returned⟩
    · have inside : builderStep c dispatch s = onQueue (channel E c) s .consumer () := builderStep_inPop inPop pc
      rw [inside]
      cases at_pc : s.queue.consumer with
      | popLoadTail head =>
        simp only [onQueue, channel, SpscQueue.step, consumerStep, at_pc]
        split <;> simp
      | popLoadHead | popRead head | popStore head out =>
        simp [onQueue, channel, SpscQueue.step, consumerStep, at_pc]
      | _ =>
        rw [at_pc] at inPop
        exact inPop.elim
    · rcases pc with pc | pc <;> cases out <;>
        simp [builderStep, TwoThreads.builderStep, channel_consumer, pc, returned]
  have calls (pc : s.consumer = .loop ∨ s.consumer = .drain) : ∃ s', builderStep c dispatch s = some s' := by
    have free : s.queue.consumer.free = true := idle.between (pc.imp_right .inr)
    rcases pc with pc | pc <;>
      simp [builderStep, TwoThreads.builderStep, pc, onQueue, channel, SpscQueue.step, free]
  cases pc : s.consumer with
  | loop => exact calls (.inl pc)
  | drain => exact calls (.inr pc)
  | checkDone => simp [builderStep, TwoThreads.builderStep, pc, channel]
  | popping => exact access (.inl pc)
  | draining => exact access (.inr pc)
  | exited => exact absurd pc running

end Steps

section FairRuns

variable {E σ : Type} {c : Capacity} {dispatch : E → σ → σ} {blank : E} {produced : List E} {start : σ}
  {s s' : State E σ}

structure Live (c : Capacity) (dispatch : E → σ → σ) (blank : E) (produced : List E) (start : σ)
    (s : State E σ) : Prop where
  reachable : Transition.Reachable (step c dispatch) (init blank produced start) s
  returned : Returned s

theorem step_live (live : Live c dispatch blank produced start s) (turn : Turn)
    (taken : step c dispatch s turn = some s') : Live c dispatch blank produced start s' := by
  refine ⟨.move turn live.reachable taken, ?_⟩
  have inv := reachable_inv live.reachable
  have queueInv := reachable_queue live.reachable
  cases turn with
  | parser => exact parserStep_returned inv queueInv live.returned taken
  | builder => exact builderStep_returned inv queueInv live.returned taken

variable (c dispatch blank produced start) in
theorem along_live (schedule : Nat → Turn) (n : Nat) :
    Live c dispatch blank produced start (along (step c dispatch) (init blank produced start) schedule n) :=
  along_keeps (fun _ turn _ live taken => step_live live turn taken) (Nat.zero_le n) ⟨.start, init_returned blank⟩

theorem pushed_length (live : Live c dispatch blank produced start s) :
    s.queue.pushed.length ≤ produced.length ∧ s.queue.popped.length ≤ s.queue.pushed.length :=
  ⟨(reachable_inv live.reachable).pushed_le.length_le, (reachable_queue live.reachable).order⟩

theorem rank_lower (fewer : outstanding produced s' < outstanding produced s) :
    rank produced s' < rank produced s :=
  Prod.Lex.toLex_lt_toLex.mpr (.inl fewer)

theorem rank_closer (same : outstanding produced s' = outstanding produced s) (closer : distance s' < distance s) :
    rank produced s' < rank produced s :=
  Prod.Lex.toLex_lt_toLex.mpr (.inr ⟨same, closer⟩)

theorem parser_rank (live : Live c dispatch blank produced start s) (taken : parserStep c s = some s') :
    rank produced s' < rank produced s ∨
      (rank produced s' = rank produced s ∧ needed s' = needed s ∧ Turn.parser ≠ needed s) := by
  obtain ⟨running, popped, consumer, inQueue, kind⟩ :=
    parser_move (reachable_inv live.reachable) (reachable_queue live.reachable) taken
  have room := (pushed_length (step_live live .parser taken)).1
  rcases kind with ⟨stored, working⟩ | ⟨pushed, finished⟩ | ⟨pushed, working, closer⟩
  · left
    refine rank_lower ?_
    simp only [outstanding, popped, if_neg running, if_neg working]
    omega
  · left
    refine rank_lower ?_
    simp only [outstanding, popped, pushed, if_neg running, if_pos finished]
    omega
  · have same : outstanding produced s' = outstanding produced s := by
      simp only [outstanding, popped, pushed, if_neg running, if_neg working]
    have alike : Waiting s' ↔ Waiting s := by simp only [Waiting, popped, pushed]
    by_cases waits : Waiting s
    · right
      have left : popLeft s' = popLeft s := by simp only [popLeft, consumer, inQueue]
      refine ⟨?_, ?_, ?_⟩
      · simp only [rank, distance, same, if_pos waits, if_pos (alike.mpr waits), left]
      · simp only [needed, if_pos waits, if_pos (alike.mpr waits)]
      · simp [needed, waits]
    · left
      refine rank_closer same ?_
      simp only [distance, if_neg waits, if_neg (mt alike.mp waits), if_neg running, if_neg working]
      exact closer waits

theorem builder_rank (live : Live c dispatch blank produced start s) (taken : builderStep c dispatch s = some s') :
    s'.consumer = .exited ∨ rank produced s' < rank produced s ∨
      (rank produced s' = rank produced s ∧ needed s' = needed s ∧ Turn.builder ≠ needed s) := by
  obtain ⟨pushed, parser, inQueue, kind⟩ :=
    builder_move (reachable_inv live.reachable) (reachable_queue live.reachable) live.returned.told taken
  have room := pushed_length (step_live live .builder taken)
  rcases kind with gone | stored | ⟨popped, closer, leaving⟩
  · exact .inl gone
  · right; left
    refine rank_lower ?_
    simp only [outstanding, pushed, parser] at room ⊢
    omega
  · right
    have same : outstanding produced s' = outstanding produced s := by
      simp only [outstanding, popped, pushed, parser]
    have alike : Waiting s' ↔ Waiting s := by simp only [Waiting, popped, pushed]
    by_cases waits : Waiting s
    · left
      refine rank_closer same ?_
      simp only [distance, if_pos waits, if_pos (alike.mpr waits)]
      exact closer waits
    by_cases finished : s.parser = .finished
    · left
      refine rank_closer same ?_
      simp only [distance, if_neg waits, if_neg (mt alike.mp waits), parser, if_pos finished]
      exact leaving waits finished
    · right
      have left : parserLeft s' = parserLeft s := by simp only [parserLeft, parser, inQueue]
      refine ⟨?_, ?_, ?_⟩
      · simp only [rank, distance, same, if_neg waits, if_neg (mt alike.mp waits), parser, if_neg finished, left]
      · simp only [needed, if_neg waits, if_neg (mt alike.mp waits), parser]
      · simp [needed, waits, finished]

theorem needed_enabled (live : Live c dispatch blank produced start s) (running : s.consumer ≠ .exited) :
    ∃ s', step c dispatch s (needed s) = some s' := by
  have inv := reachable_inv live.reachable
  by_cases parser : needed s = .parser
  · rw [parser]
    refine parser_enabled inv live.returned fun finished => ?_
    simp [needed, finished] at parser
  · have builder : needed s = .builder := by
      cases here : needed s with
      | parser => exact absurd here parser
      | builder => rfl
    rw [builder]
    exact builder_enabled inv live.returned running

variable (c dispatch blank produced start) in
theorem fair_run_exits (schedule : Nat → Turn) (fair : Fair schedule) :
    ∃ n, (along (step c dispatch) (init blank produced start) schedule n).consumer = .exited := by
  have leads : LeadsTo (along (step c dispatch) (init blank produced start) schedule)
      (Live c dispatch blank produced start) fun s => s.consumer = .exited := by
    refine leads_by_rank _ _ (rank produced) (fun s turn => turn = needed s) (fun _ turn _ live taken =>
      step_live live turn taken) ?_ ?_ (fun s _ _ => fair (needed s))
    · intro s turn s' live taken
      cases turn with
      | parser =>
        refine .inr ((parser_rank live taken).imp_right fun ⟨same, turns, idle⟩ => ⟨same, ?_, idle⟩)
        rw [turns]
      | builder =>
        refine (builder_rank live taken).imp_right (Or.imp_right fun ⟨same, turns, idle⟩ => ⟨same, ?_, idle⟩)
        rw [turns]
    · intro s turn live running mine
      rw [mine]
      exact needed_enabled live running
  obtain ⟨n, -, gone⟩ := leads 0 (along_live c dispatch blank produced start schedule 0)
  exact ⟨n, gone⟩

theorem exited_stuck (live : Live c dispatch blank produced start s) (gone : s.consumer = .exited) :
    s.parser = .finished ∧ ∀ turn, step c dispatch s turn = none := by
  have finished := (exited (reachable_inv live.reachable) gone).1
  refine ⟨finished, fun turn => ?_⟩
  cases turn with
  | parser => simp [step, TwoThreads.step, TwoThreads.parserStep, finished]
  | builder => simp [step, TwoThreads.step, TwoThreads.builderStep, gone]

end FairRuns

/-- Whatever the scheduler does, as long as neither thread is left out for good,
both threads return, and nothing moves after that: everything the parser thread
was given has been dispatched, once and in order. -/
theorem fair_run_finishes {E σ : Type} (c : Capacity) (dispatch : E → σ → σ) (blank : E) (produced : List E)
    (start : σ) (schedule : Nat → Turn) (fair : Fair schedule) :
    ∃ n s, s.parser = .finished ∧ s.consumer = .exited ∧ s.dispatched = produced ∧
      s.consumerFrames = produced.length ∧ s.builder = produced.foldl (fun b env => dispatch env b) start ∧
      ∀ m, n ≤ m → along (step c dispatch) (init blank produced start) schedule m = s := by
  obtain ⟨n, gone⟩ := fair_run_exits c dispatch blank produced start schedule fair
  have live := along_live c dispatch blank produced start schedule n
  have inv := reachable_inv live.reachable
  obtain ⟨-, all, -, built⟩ := exited inv gone
  obtain ⟨finished, stuck⟩ := exited_stuck live gone
  exact ⟨n, _, finished, gone, all, by rw [inv.frames, all], built, fun m later => along_stuck later stuck⟩

theorem fair_run_finishes_two_slots :
    let c : Capacity := ⟨1, by decide, by decide⟩
    ∃ n s, s.parser = .finished ∧ s.consumer = .exited ∧ s.dispatched = [3, 1, 4] ∧ s.consumerFrames = 3 ∧
      s.builder = [4, 1, 3] ∧
      ∀ m, n ≤ m → along (step c List.cons) (init 0 [3, 1, 4] []) (alternate .parser .builder) m = s :=
  fair_run_finishes ⟨1, by decide, by decide⟩ List.cons 0 [3, 1, 4] [] (alternate .parser .builder) fun turn =>
    match turn with
    | .parser => alternate_first _ _
    | .builder => alternate_second _ _

end Threaded

end ItchLob.Pipeline
