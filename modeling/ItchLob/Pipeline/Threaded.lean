import ItchLob.Pipeline.TwoThreads

set_option autoImplicit false

namespace ItchLob.Pipeline

namespace Threaded

open SpscQueue
open TwoThreads (Parser Builder Turn Channel Reading dispatchOne)

-- Every access of the queue and of producer_done is an atomic step.
structure Memory (E : Type) extends SpscQueue.State E where
  producerDone : Bool := false

abbrev State (E σ : Type) := TwoThreads.State (Memory E) E σ

def init {E σ : Type} (blank : E) (produced : List E) (builder : σ) : State E σ :=
  { queue := { toState := SpscQueue.init blank }, todo := produced, builder }

def channel (E : Type) (c : Capacity) : Channel Unit E (Memory E) where
  producer q := q.producer
  consumer q := q.consumer
  access q m _ := (SpscQueue.step c q.toState m).map fun queue => { q with toState := queue }
  storeDone q := { q with producerDone := true }
  loadDone q _ := some (q.producerDone, q)

def step {E σ : Type} (c : Capacity) (dispatch : E → σ → σ) (s : State E σ) (turn : Turn) : Option (State E σ) :=
  TwoThreads.step (channel E c) dispatch s turn ()

abbrev parserStep {E σ : Type} (c : Capacity) (s : State E σ) : Option (State E σ) :=
  TwoThreads.parserStep (channel E c) s ()

abbrev builderStep {E σ : Type} (c : Capacity) (dispatch : E → σ → σ) (s : State E σ) : Option (State E σ) :=
  TwoThreads.builderStep (channel E c) dispatch s ()

def reading (E : Type) (c : Capacity) (total : Nat) : Reading E (Memory E) where
  pushed q := q.pushed
  popped q := q.popped
  Ok q := SpscQueue.Inv c q.toState ∧ (q.producerDone = true → total ≤ q.pushed.length)
  Told q := q.producerDone = true
  Seen q := q.producerDone = true

section Laws

variable {E : Type} {c : Capacity} {total : Nat} {q q' : Memory E}

@[simp] theorem channel_producer : (channel E c).producer q = q.producer := rfl
@[simp] theorem channel_consumer : (channel E c).consumer q = q.consumer := rfl

theorem access_eq {m : Move E} {i : Unit} (taken : (channel E c).access q m i = some q') :
    ∃ queue, SpscQueue.step c q.toState m = some queue ∧ q' = { q with toState := queue } := by
  obtain ⟨queue, moved, same⟩ := Option.map_eq_some_iff.mp taken
  exact ⟨queue, moved, same.symm⟩

theorem push_frame {queue queue' : SpscQueue.State E} {v : E}
    (taken : SpscQueue.step c queue (.push v) = some queue') :
    queue' = { queue with producer := .pushLoadTail v } := by
  simp only [SpscQueue.step] at taken
  split at taken <;> cases taken
  rfl

theorem producerSize_frame {queue queue' : SpscQueue.State E}
    (taken : SpscQueue.step c queue .producerSize = some queue') :
    queue' = { queue with producer := .sizeLoadTail } := by
  simp only [SpscQueue.step] at taken
  split at taken <;> cases taken
  rfl

theorem pop_frame {queue queue' : SpscQueue.State E}
    (taken : SpscQueue.step c queue .pop = some queue') :
    queue' = { queue with consumer := .popLoadHead } := by
  simp only [SpscQueue.step] at taken
  split at taken <;> cases taken
  rfl

theorem pushed_grows {queue queue' : SpscQueue.State E} (taken : producerStep c queue = some queue') :
    queue.pushed.length ≤ queue'.pushed.length := by
  simp only [producerStep] at taken
  split at taken
  case h_2 => split at taken <;> cases taken <;> exact Nat.le_refl _
  case h_4 =>
    cases taken
    simp
  case h_7 => cases taken
  all_goals
    cases taken
    exact Nat.le_refl _

theorem produces (ok : (reading E c total).Ok q) {queue : SpscQueue.State E} {m : Move E}
    (moved : SpscQueue.step c q.toState m = some queue) (consumer : queue.consumer = q.consumer)
    (popped : queue.popped = q.popped) (grows : q.pushed.length ≤ queue.pushed.length) :
    (reading E c total).Produces (channel E c) q { q with toState := queue } :=
  ⟨⟨step_inv ok.1 moved, fun told => (ok.2 told).trans grows⟩, consumer, popped, id, id⟩

theorem consumes (ok : (reading E c total).Ok q) {queue : SpscQueue.State E} {m : Move E}
    (moved : SpscQueue.step c q.toState m = some queue) (producer : queue.producer = q.producer)
    (pushed : queue.pushed = q.pushed) :
    (reading E c total).Consumes (channel E c) q { q with toState := queue } :=
  ⟨⟨step_inv ok.1 moved, fun told => pushed ▸ ok.2 told⟩, producer, pushed, id, id⟩

theorem lawful (E : Type) (c : Capacity) (total : Nat) :
    (channel E c).Lawful (reading E c total) total fun _ => True where
  push ok taken := by
    obtain ⟨queue, moved, rfl⟩ := access_eq taken
    have same := push_frame moved
    exact ⟨produces ok moved (by rw [same]) (by rw [same]) (by rw [same]), by simp only [channel, same],
      by simp only [reading, same]⟩
  producerSize ok taken := by
    obtain ⟨queue, moved, rfl⟩ := access_eq taken
    have same := producerSize_frame moved
    exact ⟨produces ok moved (by rw [same]) (by rw [same]) (by rw [same]), by simp only [channel, same],
      by simp only [reading, same]⟩
  producer ok taken := by
    obtain ⟨queue, moved, rfl⟩ := access_eq taken
    obtain ⟨consumer, popped, -⟩ := producerStep_frame moved
    exact ⟨produces ok moved consumer popped (pushed_grows moved), fun v running => producerStep_push running moved,
      fun running => producerStep_size running moved⟩
  storeDone ok all := ⟨⟨ok.1, fun _ => all⟩, rfl, rfl, rfl, rfl, fun _ => rfl⟩
  pop ok taken := by
    obtain ⟨queue, moved, rfl⟩ := access_eq taken
    have same := pop_frame moved
    exact ⟨consumes ok moved (by rw [same]) (by rw [same]), by simp only [channel, same],
      by simp only [reading, same]⟩
  consumer ok running taken := by
    obtain ⟨queue, moved, rfl⟩ := access_eq taken
    obtain ⟨producer, pushed, -⟩ := consumerStep_frame moved
    refine ⟨consumes ok moved producer pushed, ?_⟩
    rcases consumerStep_pop ok.1 running moved with kept | took | ⟨same, empty, all⟩
    · exact .inl kept
    · exact .inr (.inl took)
    · refine .inr (.inr ⟨same, empty, fun told => ?_⟩)
      exact (ok.2 told).trans (Nat.le_of_eq (congrArg List.length (same.trans all).symm))
  loadDone ok loaded := by
    cases loaded
    exact ⟨⟨ok, rfl, rfl, id, id⟩, rfl, rfl, id⟩
  fifo {q} ok := by
    change q.popped <+: q.pushed
    rw [ok.1.fifo]
    exact List.take_prefix _ _
  none := trivial
  sized _ _ := trivial

end Laws

section Runs

variable {E σ : Type} {c : Capacity} {dispatch : E → σ → σ} {produced : List E} {empty : σ} {s s' : State E σ}

theorem onQueue_eq {m : Move E} (taken : TwoThreads.onQueue (channel E c) s m () = some s') :
    ∃ queue, SpscQueue.step c s.queue.toState m = some queue ∧
      s' = { s with queue := { s.queue with toState := queue } } := by
  obtain ⟨memory, accessed, rfl⟩ := TwoThreads.onQueue_eq taken
  obtain ⟨queue, moved, rfl⟩ := access_eq accessed
  exact ⟨queue, moved, rfl⟩

abbrev Inv (c : Capacity) (produced : List E) (empty : σ) (dispatch : E → σ → σ) (s : State E σ) : Prop :=
  TwoThreads.Inv (channel E c) (reading E c produced.length) produced empty dispatch (fun _ => True) s

theorem init_inv (blank : E) : Inv c produced empty dispatch (init blank produced empty) :=
  ⟨⟨SpscQueue.init_inv blank, nofun⟩, ⟨rfl, rfl⟩, rfl, nofun, rfl, rfl, trivial⟩

theorem reachable_inv {blank : E}
    (reachable : Transition.Reachable (step c dispatch) (init blank produced empty) s) :
    Inv c produced empty dispatch s :=
  reachable.invariant (init_inv blank) fun _ _ _ _ inv taken =>
    TwoThreads.step_inv (lawful E c produced.length) inv taken

theorem reachable_queue {blank : E}
    (reachable : Transition.Reachable (step c dispatch) (init blank produced empty) s) :
    SpscQueue.Inv c s.queue.toState :=
  (reachable_inv reachable).queue.1

theorem step_moves {turn : Turn} (taken : step c dispatch s turn = some s') :
    (∃ m, SpscQueue.step c s.queue.toState m = some s'.queue.toState ∧ s'.maxOccupancy = s.maxOccupancy) ∨
      s'.queue.toState = s.queue.toState ∧
        (s'.maxOccupancy = s.maxOccupancy ∨ s.queue.producer = .sized s'.maxOccupancy) := by
  rcases TwoThreads.step_moves taken with ⟨m, accessed, peak⟩ | ⟨same | stored | ⟨b, loaded⟩, peak⟩
  · obtain ⟨queue, moved, same⟩ := access_eq accessed
    exact .inl ⟨m, by rw [moved, same], peak⟩
  · exact .inr ⟨congrArg Memory.toState same, peak⟩
  · exact .inr ⟨by rw [stored]; rfl, peak⟩
  · obtain ⟨-, same⟩ := Prod.mk.inj (Option.some.inj loaded)
    exact .inr ⟨congrArg Memory.toState same.symm, peak⟩

-- Where a thread's running call is, for each place the thread can be at.
theorem pushing_call (inv : Inv c produced empty dispatch s) (pc : s.parser = .pushing) :
    ∃ env, s.queue.producer.InPush env ∨ s.queue.producer = .pushed env true := by
  have parser := inv.parser
  rw [pc] at parser
  obtain ⟨env, -, -, ⟨running, -⟩ | ⟨returned, -⟩⟩ := parser
  · exact ⟨env, .inl running⟩
  · exact ⟨env, .inr returned⟩

theorem sizing_call (inv : Inv c produced empty dispatch s) (pc : s.parser = .sizing) : s.queue.producer.InSize := by
  have parser := inv.parser
  rw [pc] at parser
  exact parser.1

theorem popping_call (inv : Inv c produced empty dispatch s) (pc : s.consumer = .popping ∨ s.consumer = .draining) :
    s.queue.consumer.InPop ∨ ∃ out, s.queue.consumer = .popped out := by
  have consumer := inv.consumer
  have popping : TwoThreads.Popping (channel E c) (reading E c produced.length) s := by
    rcases pc with pc | pc <;> rw [pc] at consumer
    · exact consumer
    · exact consumer.2.1
  rcases popping with ⟨running, -⟩ | ⟨env, returned, -⟩ | ⟨returned, -⟩
  · exact .inl running
  · exact .inr ⟨_, returned⟩
  · exact .inr ⟨_, returned⟩

theorem exited (inv : Inv c produced empty dispatch s) (gone : s.consumer = .exited) :
    s.parser = .finished ∧ s.dispatched = produced ∧ s.consumerFrames = s.producerFrames ∧
      s.builder = produced.foldl (fun b env => dispatch env b) empty := by
  have all := inv.exited (lawful E c produced.length) gone
  have consumer := inv.consumer
  rw [gone] at consumer
  have finished := inv.told consumer.1
  have parser := inv.parser
  rw [finished] at parser
  refine ⟨finished, all, ?_, by rw [inv.built, all]⟩
  rw [inv.frames, parser.2, ← parser.1, all]

end Runs

section Finishing

variable {E σ : Type} (c : Capacity) (dispatch : E → σ → σ) (s : State E σ)

structure Resting (s : State E σ) : Prop where
  parser : s.parser = .ready
  consumer : s.consumer = .loop
  producerFree : s.queue.producer.free = true
  consumerFree : s.queue.consumer.free = true
  empty : s.queue.head = s.queue.tail

-- Where nine parser turns lead when the queue has room: the envelope is in and
-- the occupancy has been read.
def afterPush (env : E) (later : List E) : State E σ :=
  let next := (s.queue.tail + 1) &&& c.kMask
  let occ := size c next s.queue.head
  { s with
    queue := { s.queue with
      buf := fun i => if i = s.queue.tail then env else s.queue.buf i
      tail := next
      producer := .sized occ
      pushed := s.queue.pushed ++ [env] }
    maxOccupancy := if s.maxOccupancy < occ then occ else s.maxOccupancy
    producerFrames := s.producerFrames + 1
    todo := later }

theorem pushes_one (ready : s.parser = .ready) (free : s.queue.producer.free = true) {env : E}
    {later : List E} (more : s.todo = env :: later) (room : (s.queue.tail + 1) &&& c.kMask ≠ s.queue.head) :
    Transition.execute (step c dispatch) s (List.replicate 9 .parser) = some (afterPush c s env later) := by
  obtain ⟨queue, parser, todo, most, frames, builder, built, taken, dispatched⟩ := s
  simp only at ready free more room
  subst ready more
  simp only [List.replicate, Transition.execute, step, TwoThreads.step, TwoThreads.parserStep, TwoThreads.onQueue,
    channel, SpscQueue.step, free, if_true, if_false, Option.map_some, producerStep, Option.bind_some, room,
    Producer.free_pushed, List.tail_cons, afterPush]

theorem pops_one (looping : s.consumer = .loop) (free : s.queue.consumer.free = true)
    (nonempty : s.queue.head ≠ s.queue.tail) :
    Transition.execute (step c dispatch) s (List.replicate 6 .builder) =
      some (dispatchOne dispatch
        { s with
          queue := { s.queue with
            head := (s.queue.head + 1) &&& c.kMask
            consumer := .popped (some (s.queue.buf s.queue.head))
            popped := s.queue.popped ++ [s.queue.buf s.queue.head] } }
        (s.queue.buf s.queue.head) .loop) := by
  obtain ⟨queue, parser, todo, most, frames, builder, built, taken, dispatched⟩ := s
  simp only at looping free nonempty
  subst looping
  simp only [List.replicate, Transition.execute, step, TwoThreads.step, TwoThreads.builderStep, TwoThreads.onQueue,
    channel, SpscQueue.step, free, if_true, if_false, Option.map_some, dispatchOne, consumerStep,
    Option.bind_some, nonempty]

theorem exits (looping : s.consumer = .loop) (free : s.queue.consumer.free = true)
    (empty : s.queue.head = s.queue.tail) (done : s.queue.producerDone = true) :
    Transition.execute (step c dispatch) s (List.replicate 9 .builder) =
      some { s with queue := { s.queue with consumer := .popped none }, consumer := .exited } := by
  obtain ⟨⟨queue, flag⟩, parser, todo, most, frames, builder, built, taken, dispatched⟩ := s
  simp only at looping free empty done
  subst looping done
  simp only [List.replicate, Transition.execute, step, TwoThreads.step, TwoThreads.builderStep, TwoThreads.onQueue,
    channel, SpscQueue.step, free, if_true, empty, Option.map_some, consumerStep, Option.bind_some,
    Consumer.free_popped]

variable {c dispatch}

theorem resting_finishes {blank : E} {produced : List E} {start : σ} (left : List E) (s : State E σ)
    (reachable : Transition.Reachable (step c dispatch) (init blank produced start) s)
    (rest : Resting s) (todo : s.todo = left) :
    ∃ s', Transition.Reachable (step c dispatch) (init blank produced start) s' ∧ s'.consumer = .exited := by
  induction left generalizing s with
  | nil =>
    have tells : step c dispatch s .parser =
        some { s with queue := { s.queue with producerDone := true }, parser := .finished } := by
      simp only [step, TwoThreads.step, TwoThreads.parserStep, rest.parser]
      rw [todo]
      rfl
    have leaves := exits c dispatch { s with queue := { s.queue with producerDone := true }, parser := .finished }
      rest.consumer rest.consumerFree rest.empty rfl
    exact ⟨_, (reachable.move .parser tells).execute leaves, rfl⟩
  | cons env later ih =>
    have inv := reachable_queue reachable
    have room : (s.queue.tail + 1) &&& c.kMask ≠ s.queue.head := by
      have two := c.value_ge
      have none := inv.empty_iff.mp rest.empty
      rw [Ne, inv.full_iff]
      omega
    have pushed := reachable.execute (pushes_one c dispatch s rest.parser rest.producerFree todo room)
    have pops := pops_one c dispatch (afterPush c s env later) rest.consumer rest.consumerFree (Ne.symm room)
    refine ih _ (pushed.execute pops) ⟨rest.parser, rfl, rfl, rfl, ?_⟩ rfl
    change (s.queue.head + 1) &&& c.kMask = (s.queue.tail + 1) &&& c.kMask
    rw [rest.empty]

theorem run_finishes (c : Capacity) (dispatch : E → σ → σ) (blank : E) (produced : List E) (start : σ) :
    ∃ s, Transition.Reachable (step c dispatch) (init blank produced start) s ∧ s.consumer = .exited :=
  resting_finishes produced _ .start ⟨rfl, rfl, rfl, rfl, rfl⟩ rfl

end Finishing

/-- Under every interleaving the book-builder thread has dispatched a prefix of
what the parser pushed, and when it has left its loop it has dispatched all of
it, once and in order. -/
theorem shutdown_exact {E σ : Type} (c : Capacity) (dispatch : E → σ → σ) (blank : E) (produced : List E)
    (start : σ) (s : State E σ)
    (reachable : Transition.Reachable (step c dispatch) (init blank produced start) s) :
    s.dispatched <+: s.queue.pushed ∧ s.queue.pushed <+: produced ∧
      s.builder = s.dispatched.foldl (fun b env => dispatch env b) start ∧
      (s.consumer = .exited → s.dispatched = produced ∧ s.consumerFrames = s.producerFrames ∧
        s.consumerFrames = produced.length) := by
  have inv := reachable_inv reachable
  have taken := (lawful E c produced.length).fifo inv.queue
  refine ⟨inv.dispatched_le.trans taken, inv.pushed_le, inv.built, fun gone => ?_⟩
  obtain ⟨-, all, frames, -⟩ := exited inv gone
  exact ⟨all, frames, by rw [inv.frames, all]⟩

theorem shutdown_exact_two_slots :
    let c : Capacity := ⟨1, by decide, by decide⟩
    ∃ s, Transition.Reachable (step c List.cons) (init 0 [3, 1, 4] []) s ∧ s.consumer = .exited ∧
      s.dispatched = [3, 1, 4] ∧ s.builder = [4, 1, 3] := by
  intro c
  obtain ⟨s, reachable, gone⟩ := run_finishes c List.cons 0 [3, 1, 4] []
  obtain ⟨-, -, built, exact⟩ := shutdown_exact c List.cons 0 [3, 1, 4] [] s reachable
  have all := (exact gone).1
  exact ⟨s, reachable, gone, all, by rw [built, all]; rfl⟩

end Threaded

end ItchLob.Pipeline
