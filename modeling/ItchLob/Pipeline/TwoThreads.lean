import ItchLob.Pipeline.SpscQueue

set_option autoImplicit false

namespace ItchLob.Pipeline

namespace TwoThreads

open SpscQueue (Move Producer Consumer)

/-- The parser thread between two calls of push_spin, inside its push loop, in
the occupancy reading that follows, and after the store of producer_done. -/
inductive Parser where
  | ready
  | pushing
  | sizing
  | finished
  deriving DecidableEq, Repr

/-- The book-builder thread: the outer loop, the load of producer_done after an
empty pop, and the final drain. -/
inductive Builder where
  | loop
  | popping
  | checkDone
  | drain
  | draining
  | exited
  deriving DecidableEq, Repr

inductive Turn where
  | parser
  | builder
  deriving DecidableEq, Repr

/-- What the two threads share, by the accesses they make of it: the queue with the call that
is running on either side, and producer_done. `ι` is what an access leaves open. -/
structure Channel (ι E Q : Type) where
  producer : Q → Producer E
  consumer : Q → Consumer E
  access : Q → Move E → ι → Option Q
  storeDone : Q → Q
  loadDone : Q → ι → Option (Bool × Q)

-- `todo` is what the parser still has to push, the envelope in hand included.
-- `dispatched` is a ghost: the envelopes handed to dispatch_to_book so far.
structure State (Q E σ : Type) where
  queue : Q
  parser : Parser := .ready
  todo : List E
  maxOccupancy : Nat := 0
  producerFrames : Nat := 0
  consumer : Builder := .loop
  builder : σ
  consumerFrames : Nat := 0
  dispatched : List E := []

section Step

variable {ι E Q σ : Type} (ch : Channel ι E Q) (dispatch : E → σ → σ)

def onQueue (s : State Q E σ) (m : Move E) (i : ι) : Option (State Q E σ) :=
  (ch.access s.queue m i).map fun queue => { s with queue }

def parserStep (s : State Q E σ) (i : ι) : Option (State Q E σ) :=
  match s.parser with
  | .ready =>
    match s.todo with
    | env :: _ => (onQueue ch s (.push env) i).map fun s => { s with parser := .pushing }
    | [] => some { s with queue := ch.storeDone s.queue, parser := .finished }
  | .pushing =>
    match ch.producer s.queue with
    | .pushed _ true => (onQueue ch s .producerSize i).map fun s => { s with parser := .sizing }
    | .pushed env false => onQueue ch s (.push env) i
    | _ => onQueue ch s .producer i
  | .sizing =>
    match ch.producer s.queue with
    | .sized occ =>
      some { s with
        maxOccupancy := if s.maxOccupancy < occ then occ else s.maxOccupancy
        producerFrames := s.producerFrames + 1
        todo := s.todo.tail
        parser := .ready }
    | _ => onQueue ch s .producer i
  | .finished => none

def dispatchOne (s : State Q E σ) (env : E) (next : Builder) : State Q E σ :=
  { s with
    builder := dispatch env s.builder
    consumerFrames := s.consumerFrames + 1
    dispatched := s.dispatched ++ [env]
    consumer := next }

def builderStep (s : State Q E σ) (i : ι) : Option (State Q E σ) :=
  match s.consumer with
  | .loop => (onQueue ch s .pop i).map fun s => { s with consumer := .popping }
  | .popping =>
    match ch.consumer s.queue with
    | .popped (some env) => some (dispatchOne dispatch s env .loop)
    | .popped none => some { s with consumer := .checkDone }
    | _ => onQueue ch s .consumer i
  | .checkDone =>
    (ch.loadDone s.queue i).map fun r => { s with queue := r.2, consumer := if r.1 then .drain else .loop }
  | .drain => (onQueue ch s .pop i).map fun s => { s with consumer := .draining }
  | .draining =>
    match ch.consumer s.queue with
    | .popped (some env) => some (dispatchOne dispatch s env .drain)
    | .popped none => some { s with consumer := .exited }
    | _ => onQueue ch s .consumer i
  | .exited => none

def step (s : State Q E σ) (turn : Turn) (i : ι) : Option (State Q E σ) :=
  match turn with
  | .parser => parserStep ch s i
  | .builder => builderStep ch dispatch s i

variable {ch dispatch} {s s' : State Q E σ} {i : ι}

theorem onQueue_eq {m : Move E} (taken : onQueue ch s m i = some s') :
    ∃ queue, ch.access s.queue m i = some queue ∧ s' = { s with queue } := by
  obtain ⟨queue, moved, same⟩ := Option.map_eq_some_iff.mp taken
  exact ⟨queue, moved, same.symm⟩

theorem builderStep_inPop (running : (ch.consumer s.queue).InPop)
    (pc : s.consumer = .popping ∨ s.consumer = .draining) :
    builderStep ch dispatch s i = onQueue ch s .consumer i := by
  unfold builderStep
  cases at_pc : ch.consumer s.queue with
  | popped out =>
    rw [at_pc] at running
    exact running.elim
  | _ => rcases pc with pc | pc <;> rw [pc]

theorem onQueue_moves {mid : State Q E σ} {m : Move E} (taken : onQueue ch s m i = some mid)
    (queue : s'.queue = mid.queue) (peak : s'.maxOccupancy = mid.maxOccupancy) :
    ∃ m, ch.access s.queue m i = some s'.queue ∧ s'.maxOccupancy = s.maxOccupancy := by
  obtain ⟨moved, accessed, rfl⟩ := onQueue_eq taken
  exact ⟨m, queue ▸ accessed, peak⟩

-- A step is one access of the queue or of producer_done, or it leaves both alone; max_occupancy
-- grows only to what a size call of the parser thread has returned.
theorem step_moves {turn : Turn} (taken : step ch dispatch s turn i = some s') :
    (∃ m, ch.access s.queue m i = some s'.queue ∧ s'.maxOccupancy = s.maxOccupancy) ∨
      (s'.queue = s.queue ∨ s'.queue = ch.storeDone s.queue ∨ ∃ b, ch.loadDone s.queue i = some (b, s'.queue)) ∧
        (s'.maxOccupancy = s.maxOccupancy ∨ ch.producer s.queue = .sized s'.maxOccupancy) := by
  cases turn with
  | parser =>
    simp only [step, parserStep] at taken
    split at taken
    · split at taken
      · obtain ⟨mid, onto, rfl⟩ := Option.map_eq_some_iff.mp taken
        exact .inl (onQueue_moves onto rfl rfl)
      · cases taken
        exact .inr ⟨.inr (.inl rfl), .inl rfl⟩
    · split at taken
      · obtain ⟨mid, onto, rfl⟩ := Option.map_eq_some_iff.mp taken
        exact .inl (onQueue_moves onto rfl rfl)
      · exact .inl (onQueue_moves taken rfl rfl)
      · exact .inl (onQueue_moves taken rfl rfl)
    · split at taken
      next occ returned =>
        cases taken
        refine .inr ⟨.inl rfl, ?_⟩
        by_cases larger : s.maxOccupancy < occ
        · exact .inr (by simp only [if_pos larger, returned])
        · exact .inl (if_neg larger)
      · exact .inl (onQueue_moves taken rfl rfl)
    · cases taken
  | builder =>
    simp only [step, builderStep] at taken
    split at taken
    · obtain ⟨mid, onto, rfl⟩ := Option.map_eq_some_iff.mp taken
      exact .inl (onQueue_moves onto rfl rfl)
    · split at taken
      · cases taken
        exact .inr ⟨.inl rfl, .inl rfl⟩
      · cases taken
        exact .inr ⟨.inl rfl, .inl rfl⟩
      · exact .inl (onQueue_moves taken rfl rfl)
    · obtain ⟨⟨told, queue⟩, loaded, rfl⟩ := Option.map_eq_some_iff.mp taken
      exact .inr ⟨.inr (.inr ⟨told, loaded⟩), .inl rfl⟩
    · obtain ⟨mid, onto, rfl⟩ := Option.map_eq_some_iff.mp taken
      exact .inl (onQueue_moves onto rfl rfl)
    · split at taken
      · cases taken
        exact .inr ⟨.inl rfl, .inl rfl⟩
      · cases taken
        exact .inr ⟨.inl rfl, .inl rfl⟩
      · exact .inl (onQueue_moves taken rfl rfl)
    · cases taken

end Step

/-- What a reader of the shared memory knows: the queue's two histories, that it is in
order, that the store of producer_done has been made and that the book-builder thread has
seen everything pushed. -/
structure Reading (E Q : Type) where
  pushed : Q → List E
  popped : Q → List E
  Ok : Q → Prop
  Told : Q → Prop
  Seen : Q → Prop

section Laws

variable {ι E Q : Type} (ch : Channel ι E Q) (r : Reading E Q)

-- An access by the parser thread leaves the builder's side of the queue alone.
structure Reading.Produces (q q' : Q) : Prop where
  ok : r.Ok q'
  consumer : ch.consumer q' = ch.consumer q
  popped : r.popped q' = r.popped q
  told : r.Told q' → r.Told q
  seen : r.Seen q → r.Seen q'

structure Reading.Consumes (q q' : Q) : Prop where
  ok : r.Ok q'
  producer : ch.producer q' = ch.producer q
  pushed : r.pushed q' = r.pushed q
  told : r.Told q' → r.Told q
  seen : r.Seen q → r.Seen q'

-- What the threads rely on when `total` envelopes are pushed in all. `Size` holds of
-- every occupancy that a size call returns.
structure Channel.Lawful (total : Nat) (Size : Nat → Prop) : Prop where
  push : ∀ {q q' v i}, r.Ok q → ch.access q (.push v) i = some q' →
    r.Produces ch q q' ∧ ch.producer q' = .pushLoadTail v ∧ r.pushed q' = r.pushed q
  producerSize : ∀ {q q' i}, r.Ok q → ch.access q .producerSize i = some q' →
    r.Produces ch q q' ∧ ch.producer q' = .sizeLoadTail ∧ r.pushed q' = r.pushed q
  producer : ∀ {q q' i}, r.Ok q → ch.access q .producer i = some q' →
    r.Produces ch q q' ∧
      (∀ v, (ch.producer q).InPush v →
        (r.pushed q' = r.pushed q ∧ (ch.producer q').InPush v) ∨
          (r.pushed q' = r.pushed q ++ [v] ∧ ch.producer q' = .pushed v true)) ∧
      ((ch.producer q).InSize → r.pushed q' = r.pushed q ∧ (ch.producer q').InSize)
  storeDone : ∀ {q}, r.Ok q → total ≤ (r.pushed q).length →
    r.Ok (ch.storeDone q) ∧ ch.producer (ch.storeDone q) = ch.producer q ∧
      ch.consumer (ch.storeDone q) = ch.consumer q ∧ r.pushed (ch.storeDone q) = r.pushed q ∧
      r.popped (ch.storeDone q) = r.popped q ∧ (r.Seen q → r.Seen (ch.storeDone q))
  pop : ∀ {q q' i}, r.Ok q → ch.access q .pop i = some q' →
    r.Consumes ch q q' ∧ ch.consumer q' = .popLoadHead ∧ r.popped q' = r.popped q
  consumer : ∀ {q q' i}, r.Ok q → (ch.consumer q).InPop → ch.access q .consumer i = some q' →
    r.Consumes ch q q' ∧
      ((r.popped q' = r.popped q ∧ (ch.consumer q').InPop) ∨
        (∃ out, r.popped q' = r.popped q ++ [out] ∧ ch.consumer q' = .popped (some out)) ∨
        (r.popped q' = r.popped q ∧ ch.consumer q' = .popped none ∧
          (r.Seen q → total ≤ (r.popped q').length)))
  loadDone : ∀ {q q' b i}, r.Ok q → ch.loadDone q i = some (b, q') →
    r.Consumes ch q q' ∧ ch.consumer q' = ch.consumer q ∧ r.popped q' = r.popped q ∧ (b = true → r.Seen q')
  fifo : ∀ {q}, r.Ok q → r.popped q <+: r.pushed q
  none : Size 0
  sized : ∀ {q n}, r.Ok q → ch.producer q = .sized n → Size n

end Laws

section Invariant

variable {ι E Q σ : Type} (ch : Channel ι E Q) (r : Reading E Q) {dispatch : E → σ → σ} {Size : Nat → Prop}
  (produced : List E) (empty : σ)

def ParserOk (s : State Q E σ) : Parser → Prop
  | .ready => produced = r.pushed s.queue ++ s.todo ∧ s.producerFrames = (r.pushed s.queue).length
  | .pushing =>
    ∃ env rest, s.todo = env :: rest ∧
      (((ch.producer s.queue).InPush env ∧ produced = r.pushed s.queue ++ s.todo ∧
          s.producerFrames = (r.pushed s.queue).length) ∨
        (ch.producer s.queue = .pushed env true ∧ produced = r.pushed s.queue ++ rest ∧
          s.producerFrames + 1 = (r.pushed s.queue).length))
  | .sizing =>
    (ch.producer s.queue).InSize ∧ produced = r.pushed s.queue ++ s.todo.tail ∧
      s.producerFrames + 1 = (r.pushed s.queue).length
  | .finished => produced = r.pushed s.queue ∧ s.producerFrames = (r.pushed s.queue).length

-- Nothing is popped but not yet dispatched, except the envelope a returned pop
-- left in hand.
def Popping (s : State Q E σ) : Prop :=
  ((ch.consumer s.queue).InPop ∧ s.dispatched = r.popped s.queue) ∨
    (∃ env, ch.consumer s.queue = .popped (some env) ∧ r.popped s.queue = s.dispatched ++ [env]) ∨
    (ch.consumer s.queue = .popped none ∧ s.dispatched = r.popped s.queue)

-- Once the drain has begun everything pushed has been seen, so a pop that finds the
-- queue empty then has taken it all.
def BuilderOk (s : State Q E σ) : Builder → Prop
  | .loop | .checkDone => s.dispatched = r.popped s.queue
  | .popping => Popping ch r s
  | .drain => r.Seen s.queue ∧ s.dispatched = r.popped s.queue
  | .draining =>
    r.Seen s.queue ∧ Popping ch r s ∧
      (ch.consumer s.queue = .popped none → produced.length ≤ (r.popped s.queue).length)
  | .exited => r.Seen s.queue ∧ s.dispatched = r.popped s.queue ∧ produced.length ≤ (r.popped s.queue).length

structure Inv (dispatch : E → σ → σ) (Size : Nat → Prop) (s : State Q E σ) : Prop where
  queue : r.Ok s.queue
  parser : ParserOk ch r produced s s.parser
  consumer : BuilderOk ch r produced s s.consumer
  told : r.Told s.queue → s.parser = .finished
  frames : s.consumerFrames = s.dispatched.length
  built : s.builder = s.dispatched.foldl (fun b env => dispatch env b) empty
  peak : Size s.maxOccupancy

variable {ch r produced empty} {s s' : State Q E σ}

theorem ParserOk.frame {pc : Parser} (ok : ParserOk ch r produced s pc) (todo : s'.todo = s.todo)
    (frames : s'.producerFrames = s.producerFrames) (producer : ch.producer s'.queue = ch.producer s.queue)
    (pushed : r.pushed s'.queue = r.pushed s.queue) : ParserOk ch r produced s' pc := by
  cases pc <;> simpa only [ParserOk, todo, frames, producer, pushed] using ok

theorem Popping.frame (ok : Popping ch r s) (dispatched : s'.dispatched = s.dispatched)
    (consumer : ch.consumer s'.queue = ch.consumer s.queue) (popped : r.popped s'.queue = r.popped s.queue) :
    Popping ch r s' := by
  simpa only [Popping, dispatched, consumer, popped] using ok

theorem BuilderOk.frame {pc : Builder} (ok : BuilderOk ch r produced s pc) (dispatched : s'.dispatched = s.dispatched)
    (consumer : ch.consumer s'.queue = ch.consumer s.queue) (popped : r.popped s'.queue = r.popped s.queue)
    (seen : r.Seen s.queue → r.Seen s'.queue) : BuilderOk ch r produced s' pc := by
  cases pc with
  | loop | checkDone => exact dispatched.trans (Eq.trans ok popped.symm)
  | popping => exact Popping.frame ok dispatched consumer popped
  | drain => exact ⟨seen ok.1, dispatched.trans (ok.2.trans popped.symm)⟩
  | draining =>
    refine ⟨seen ok.1, ok.2.1.frame dispatched consumer popped, fun none => ?_⟩
    rw [popped]
    exact ok.2.2 (consumer.symm.trans none)
  | exited =>
    refine ⟨seen ok.1, dispatched.trans (ok.2.1.trans popped.symm), ?_⟩
    rw [popped]
    exact ok.2.2

-- A move of the parser thread: the builder's half of the invariant is untouched by it.
theorem Inv.parser_move (inv : Inv ch r produced empty dispatch Size s) (running : s.parser ≠ .finished) {queue : Q}
    (produces : r.Produces ch s.queue queue) (parser : Parser)
    (ok : ParserOk ch r produced { s with queue, parser } parser) :
    Inv ch r produced empty dispatch Size { s with queue, parser } where
  queue := produces.ok
  parser := ok
  consumer := inv.consumer.frame rfl produces.consumer produces.popped produces.seen
  told told := absurd (inv.told (produces.told told)) running
  frames := inv.frames
  built := inv.built
  peak := inv.peak

variable (lawful : ch.Lawful r produced.length Size)
include lawful

-- A call of push, the first one for an envelope or a new try.
theorem push_move (inv : Inv ch r produced empty dispatch Size s) (running : s.parser ≠ .finished) {env : E}
    {rest : List E} (left : s.todo = env :: rest) (all : produced = r.pushed s.queue ++ s.todo)
    (frames : s.producerFrames = (r.pushed s.queue).length) {i : ι} {queue : Q}
    (moved : ch.access s.queue (.push env) i = some queue) :
    Inv ch r produced empty dispatch Size { s with queue, parser := .pushing } := by
  obtain ⟨produces, producer, pushed⟩ := lawful.push inv.queue moved
  refine inv.parser_move running produces .pushing ⟨env, rest, left, .inl ⟨?_, ?_, ?_⟩⟩
  · rw [producer]
    rfl
  · rw [pushed]
    exact all
  · rw [pushed]
    exact frames

theorem ready_inv (inv : Inv ch r produced empty dispatch Size s) (pc : s.parser = .ready) {i : ι}
    (taken : parserStep ch s i = some s') : Inv ch r produced empty dispatch Size s' := by
  have parser := inv.parser
  rw [pc] at parser
  obtain ⟨all, frames⟩ := parser
  simp only [parserStep, pc] at taken
  cases left : s.todo with
  | nil =>
    rw [left] at taken all
    cases taken
    rw [List.append_nil] at all
    obtain ⟨ok, -, consumer, pushed, popped, seen⟩ :=
      lawful.storeDone inv.queue (Nat.le_of_eq (congrArg List.length all))
    exact ⟨ok, ⟨all.trans pushed.symm, frames.trans (congrArg List.length pushed.symm)⟩,
      inv.consumer.frame rfl consumer popped seen, fun _ => rfl, inv.frames, inv.built, inv.peak⟩
  | cons env rest =>
    rw [left] at taken
    obtain ⟨mid, onto, rfl⟩ := Option.map_eq_some_iff.mp taken
    obtain ⟨queue, moved, rfl⟩ := onQueue_eq onto
    exact push_move lawful inv (by simp [pc]) left all frames moved

theorem pushing_inv (inv : Inv ch r produced empty dispatch Size s) (pc : s.parser = .pushing) {i : ι}
    (taken : parserStep ch s i = some s') : Inv ch r produced empty dispatch Size s' := by
  have running : s.parser ≠ .finished := by simp [pc]
  have parser := inv.parser
  rw [pc] at parser
  obtain ⟨env, rest, left, ⟨inPush, all, frames⟩ | ⟨returned, all, frames⟩⟩ := parser
  · have again : onQueue ch s (.push env) i = some s' ∨ onQueue ch s .producer i = some s' := by
      simp only [parserStep, pc] at taken
      split at taken
      next w returned =>
        rw [returned] at inPush
        cases inPush.2
      next w returned =>
        rw [returned] at inPush
        obtain ⟨rfl, -⟩ := inPush
        exact .inl taken
      next => exact .inr taken
    rcases again with onto | onto
    · obtain ⟨queue, moved, rfl⟩ := onQueue_eq onto
      have kept := push_move lawful inv running left all frames moved
      rwa [← pc] at kept
    · obtain ⟨queue, moved, rfl⟩ := onQueue_eq onto
      obtain ⟨produces, push, -⟩ := lawful.producer inv.queue moved
      have next : ParserOk ch r produced { s with queue, parser := .pushing } .pushing := by
        rcases push env inPush with ⟨same, still⟩ | ⟨added, returned⟩
        · exact ⟨env, rest, left, .inl ⟨still, by rw [same]; exact all, by rw [same]; exact frames⟩⟩
        · refine ⟨env, rest, left, .inr ⟨returned, ?_, ?_⟩⟩
          · rw [all, left, added]
            simp
          · rw [added, List.length_append, frames, List.length_singleton]
      have kept := inv.parser_move running produces .pushing next
      rwa [← pc] at kept
  · simp only [parserStep, pc, returned] at taken
    obtain ⟨mid, onto, rfl⟩ := Option.map_eq_some_iff.mp taken
    obtain ⟨queue, moved, rfl⟩ := onQueue_eq onto
    obtain ⟨produces, producer, pushed⟩ := lawful.producerSize inv.queue moved
    refine inv.parser_move running produces .sizing ⟨?_, ?_, ?_⟩
    · rw [producer]
      trivial
    · rw [pushed, left]
      exact all
    · rw [pushed]
      exact frames

theorem sizing_inv (inv : Inv ch r produced empty dispatch Size s) (pc : s.parser = .sizing) {i : ι}
    (taken : parserStep ch s i = some s') : Inv ch r produced empty dispatch Size s' := by
  have running : s.parser ≠ .finished := by simp [pc]
  have parser := inv.parser
  rw [pc] at parser
  obtain ⟨inSize, all, frames⟩ := parser
  simp only [parserStep, pc] at taken
  split at taken
  next occ returned =>
    cases taken
    refine ⟨inv.queue, ⟨all, frames⟩, inv.consumer.frame rfl rfl rfl id, fun told => absurd (inv.told told) running,
      inv.frames, inv.built, ?_⟩
    change Size (if s.maxOccupancy < occ then occ else s.maxOccupancy)
    split
    · exact lawful.sized inv.queue returned
    · exact inv.peak
  next =>
    obtain ⟨queue, moved, rfl⟩ := onQueue_eq taken
    obtain ⟨produces, -, size⟩ := lawful.producer inv.queue moved
    obtain ⟨same, still⟩ := size inSize
    have kept := inv.parser_move running produces .sizing
      ⟨still, by rw [same]; exact all, by rw [same]; exact frames⟩
    rwa [← pc] at kept

theorem parserStep_inv (inv : Inv ch r produced empty dispatch Size s) {i : ι}
    (taken : parserStep ch s i = some s') : Inv ch r produced empty dispatch Size s' := by
  cases pc : s.parser with
  | ready => exact ready_inv lawful inv pc taken
  | pushing => exact pushing_inv lawful inv pc taken
  | sizing => exact sizing_inv lawful inv pc taken
  | finished =>
    simp only [parserStep, pc] at taken
    cases taken

omit lawful in
-- A move of the builder thread: the parser's half of the invariant is untouched by it.
theorem Inv.builder_move (inv : Inv ch r produced empty dispatch Size s) {queue : Q}
    (consumes : r.Consumes ch s.queue queue) (consumer : Builder)
    (ok : BuilderOk ch r produced { s with queue, consumer } consumer) :
    Inv ch r produced empty dispatch Size { s with queue, consumer } where
  queue := consumes.ok
  parser := inv.parser.frame rfl rfl consumes.producer consumes.pushed
  consumer := ok
  told told := inv.told (consumes.told told)
  frames := inv.frames
  built := inv.built
  peak := inv.peak

omit lawful in
theorem Inv.turns (inv : Inv ch r produced empty dispatch Size s) (consumer : Builder)
    (ok : BuilderOk ch r produced { s with consumer } consumer) :
    Inv ch r produced empty dispatch Size { s with consumer } :=
  inv.builder_move ⟨inv.queue, rfl, rfl, id, id⟩ consumer ok

omit lawful in
theorem Inv.dispatched (inv : Inv ch r produced empty dispatch Size s) (env : E) (next : Builder)
    (ok : BuilderOk ch r produced (dispatchOne dispatch s env next) next) :
    Inv ch r produced empty dispatch Size (dispatchOne dispatch s env next) where
  queue := inv.queue
  parser := inv.parser.frame rfl rfl rfl rfl
  consumer := ok
  told := inv.told
  frames := by simp [dispatchOne, inv.frames]
  built := by simp [dispatchOne, inv.built]
  peak := inv.peak

-- One access inside a pop: when it returns nothing, all that the thread had seen is taken.
theorem popping_step (inv : Inv ch r produced empty dispatch Size s) (running : (ch.consumer s.queue).InPop)
    (same : s.dispatched = r.popped s.queue) {i : ι} {queue : Q}
    (moved : ch.access s.queue .consumer i = some queue) (consumer : Builder) :
    Popping ch r { s with queue, consumer } ∧
      (r.Seen s.queue → ch.consumer queue = .popped none → produced.length ≤ (r.popped queue).length) := by
  obtain ⟨-, pop⟩ := lawful.consumer inv.queue running moved
  rcases pop with ⟨kept, still⟩ | ⟨out, added, returned⟩ | ⟨kept, none, drained⟩
  · refine ⟨.inl ⟨still, same.trans kept.symm⟩, fun _ pc => ?_⟩
    rw [pc] at still
    exact still.elim
  · refine ⟨.inr (.inl ⟨out, returned, ?_⟩), fun _ pc => ?_⟩
    · rw [added, ← same]
    · rw [returned] at pc
      cases pc
  · exact ⟨.inr (.inr ⟨none, same.trans kept.symm⟩), fun seen _ => drained seen⟩

theorem popping_inv (inv : Inv ch r produced empty dispatch Size s) (pc : s.consumer = .popping) {i : ι}
    (taken : builderStep ch dispatch s i = some s') : Inv ch r produced empty dispatch Size s' := by
  have consumer := inv.consumer
  rw [pc] at consumer
  rcases consumer with ⟨running, same⟩ | ⟨env, returned, added⟩ | ⟨returned, same⟩
  · rw [builderStep_inPop running (.inl pc)] at taken
    obtain ⟨queue, moved, rfl⟩ := onQueue_eq taken
    have kept := inv.builder_move (lawful.consumer inv.queue running moved).1 .popping
      (popping_step lawful inv running same moved .popping).1
    rwa [← pc] at kept
  · simp only [builderStep, pc, returned] at taken
    cases taken
    exact inv.dispatched env .loop added.symm
  · simp only [builderStep, pc, returned] at taken
    cases taken
    exact inv.turns .checkDone same

theorem draining_inv (inv : Inv ch r produced empty dispatch Size s) (pc : s.consumer = .draining) {i : ι}
    (taken : builderStep ch dispatch s i = some s') : Inv ch r produced empty dispatch Size s' := by
  have consumer := inv.consumer
  rw [pc] at consumer
  obtain ⟨seen, ⟨running, same⟩ | ⟨env, returned, added⟩ | ⟨returned, same⟩, drained⟩ := consumer
  · rw [builderStep_inPop running (.inr pc)] at taken
    obtain ⟨queue, moved, rfl⟩ := onQueue_eq taken
    obtain ⟨consumes, -⟩ := lawful.consumer inv.queue running moved
    obtain ⟨ok, drains⟩ := popping_step lawful inv running same moved .draining
    have kept := inv.builder_move consumes .draining ⟨consumes.seen seen, ok, drains seen⟩
    rwa [← pc] at kept
  · simp only [builderStep, pc, returned] at taken
    cases taken
    exact inv.dispatched env .drain ⟨seen, added.symm⟩
  · simp only [builderStep, pc, returned] at taken
    cases taken
    exact inv.turns .exited ⟨seen, same, drained returned⟩

theorem builderStep_inv (inv : Inv ch r produced empty dispatch Size s) {i : ι}
    (taken : builderStep ch dispatch s i = some s') : Inv ch r produced empty dispatch Size s' := by
  have consumer := inv.consumer
  cases pc : s.consumer with
  | popping => exact popping_inv lawful inv pc taken
  | draining => exact draining_inv lawful inv pc taken
  | exited =>
    simp only [builderStep, pc] at taken
    cases taken
  | checkDone =>
    rw [pc] at consumer
    simp only [builderStep, pc] at taken
    obtain ⟨⟨told, queue⟩, loaded, rfl⟩ := Option.map_eq_some_iff.mp taken
    obtain ⟨consumes, -, popped, seen⟩ := lawful.loadDone inv.queue loaded
    have same : s.dispatched = r.popped queue := Eq.trans consumer popped.symm
    cases told with
    | false => exact inv.builder_move consumes .loop same
    | true => exact inv.builder_move consumes .drain ⟨seen rfl, same⟩
  | loop =>
    rw [pc] at consumer
    simp only [builderStep, pc] at taken
    obtain ⟨mid, onto, rfl⟩ := Option.map_eq_some_iff.mp taken
    obtain ⟨queue, moved, rfl⟩ := onQueue_eq onto
    obtain ⟨consumes, called, popped⟩ := lawful.pop inv.queue moved
    refine inv.builder_move consumes .popping (.inl ⟨?_, Eq.trans consumer popped.symm⟩)
    rw [called]
    trivial
  | drain =>
    rw [pc] at consumer
    simp only [builderStep, pc] at taken
    obtain ⟨mid, onto, rfl⟩ := Option.map_eq_some_iff.mp taken
    obtain ⟨queue, moved, rfl⟩ := onQueue_eq onto
    obtain ⟨consumes, called, popped⟩ := lawful.pop inv.queue moved
    refine inv.builder_move consumes .draining
      ⟨consumes.seen consumer.1, .inl ⟨?_, consumer.2.trans popped.symm⟩, fun none => ?_⟩
    · rw [called]
      trivial
    · rw [called] at none
      cases none

theorem step_inv (inv : Inv ch r produced empty dispatch Size s) {turn : Turn} {i : ι}
    (taken : step ch dispatch s turn i = some s') : Inv ch r produced empty dispatch Size s' := by
  cases turn with
  | parser => exact parserStep_inv lawful inv taken
  | builder => exact builderStep_inv lawful inv taken

omit lawful

theorem Inv.pushed_le (inv : Inv ch r produced empty dispatch Size s) : r.pushed s.queue <+: produced := by
  have parser := inv.parser
  cases pc : s.parser with
  | ready =>
    rw [pc] at parser
    exact ⟨_, parser.1.symm⟩
  | pushing =>
    rw [pc] at parser
    obtain ⟨env, rest, -, ⟨-, all, -⟩ | ⟨-, all, -⟩⟩ := parser
    · exact ⟨_, all.symm⟩
    · exact ⟨_, all.symm⟩
  | sizing =>
    rw [pc] at parser
    exact ⟨_, parser.2.1.symm⟩
  | finished =>
    rw [pc] at parser
    exact parser.1 ▸ List.prefix_rfl

theorem Popping.dispatched_le (popping : Popping ch r s) : s.dispatched <+: r.popped s.queue := by
  rcases popping with ⟨-, same⟩ | ⟨env, -, added⟩ | ⟨-, same⟩
  · exact same ▸ List.prefix_rfl
  · exact ⟨[env], added.symm⟩
  · exact same ▸ List.prefix_rfl

theorem Inv.dispatched_le (inv : Inv ch r produced empty dispatch Size s) : s.dispatched <+: r.popped s.queue := by
  have consumer := inv.consumer
  cases pc : s.consumer with
  | loop | checkDone =>
    rw [pc] at consumer
    exact consumer ▸ List.prefix_rfl
  | popping =>
    rw [pc] at consumer
    exact Popping.dispatched_le consumer
  | drain =>
    rw [pc] at consumer
    exact consumer.2 ▸ List.prefix_rfl
  | draining =>
    rw [pc] at consumer
    exact consumer.2.1.dispatched_le
  | exited =>
    rw [pc] at consumer
    exact consumer.2.1 ▸ List.prefix_rfl

include lawful in
theorem Inv.exited (inv : Inv ch r produced empty dispatch Size s) (gone : s.consumer = .exited) :
    s.dispatched = produced := by
  have consumer := inv.consumer
  rw [gone] at consumer
  obtain ⟨-, same, all⟩ := consumer
  rw [same]
  exact ((lawful.fifo inv.queue).trans inv.pushed_le).eq_of_length_le all

end Invariant

section Simulation

variable {ι ι' E Q Q' σ : Type}

-- Whatever access is made of the one memory, in an orderly state of the other that is
-- related to it the same access can be made.
structure Channel.Follows (ch : Channel ι E Q) (ch' : Channel ι' E Q') (rel : Q → Q' → Prop) (Ok : Q' → Prop) :
    Prop where
  producer : ∀ {q q'}, rel q q' → ch'.producer q' = ch.producer q
  consumer : ∀ {q q'}, rel q q' → ch'.consumer q' = ch.consumer q
  access : ∀ {q q' m i r}, rel q q' → Ok q' → ch.access q m i = some r →
    ∃ i' r', ch'.access q' m i' = some r' ∧ rel r r'
  storeDone : ∀ {q q'}, rel q q' → rel (ch.storeDone q) (ch'.storeDone q')
  loadDone : ∀ {q q' b i r}, rel q q' → Ok q' → ch.loadDone q i = some (b, r) →
    ∃ i' r', ch'.loadDone q' i' = some (b, r') ∧ rel r r'

-- The same threads over another memory.
def State.over (s : State Q E σ) (queue : Q') : State Q' E σ where
  queue
  parser := s.parser
  todo := s.todo
  maxOccupancy := s.maxOccupancy
  producerFrames := s.producerFrames
  consumer := s.consumer
  builder := s.builder
  consumerFrames := s.consumerFrames
  dispatched := s.dispatched

variable {ch : Channel ι E Q} {ch' : Channel ι' E Q'} {rel : Q → Q' → Prop} {Ok : Q' → Prop}
  {dispatch : E → σ → σ} {s s' : State Q E σ} {q' : Q'} {i : ι}

theorem onQueue_follows (follows : ch.Follows ch' rel Ok) (related : rel s.queue q') (ok : Ok q') {m : Move E}
    (taken : onQueue ch s m i = some s') :
    ∃ i' r', onQueue ch' (s.over q') m i' = some (s'.over r') ∧ rel s'.queue r' := by
  obtain ⟨queue, moved, rfl⟩ := onQueue_eq taken
  obtain ⟨i', r', moved', still⟩ := follows.access related ok moved
  exact ⟨i', r', congrArg (Option.map _) moved', still⟩

theorem onQueue_then (follows : ch.Follows ch' rel Ok) (related : rel s.queue q') (ok : Ok q') {m : Move E}
    (next : State Q E σ → State Q E σ) {next' : State Q' E σ → State Q' E σ}
    (alike : ∀ t r, next' (t.over r) = (next t).over r) (queue : ∀ t, (next t).queue = t.queue)
    (taken : (onQueue ch s m i).map next = some s') :
    ∃ i' r', (onQueue ch' (s.over q') m i').map next' = some (s'.over r') ∧ rel s'.queue r' := by
  obtain ⟨mid, onto, rfl⟩ := Option.map_eq_some_iff.mp taken
  obtain ⟨i', r', moved, still⟩ := onQueue_follows follows related ok onto
  refine ⟨i', r', ?_, (queue mid).symm ▸ still⟩
  rw [moved, Option.map_some, alike]

theorem parserStep_follows [Inhabited ι'] (follows : ch.Follows ch' rel Ok) (related : rel s.queue q') (ok : Ok q')
    (taken : parserStep ch s i = some s') :
    ∃ i' r', parserStep ch' (s.over q') i' = some (s'.over r') ∧ rel s'.queue r' := by
  have producer : ch'.producer (s.over q').queue = ch.producer s.queue := follows.producer related
  simp only [parserStep, producer] at taken ⊢
  cases pc : s.parser with
  | ready =>
    rw [pc] at taken
    simp only [show (s.over q').parser = .ready from pc, show (s.over q').todo = s.todo from rfl]
    cases left : s.todo with
    | nil =>
      rw [left] at taken
      cases taken
      exact ⟨default, _, rfl, follows.storeDone related⟩
    | cons env later =>
      rw [left] at taken
      exact onQueue_then follows related ok (fun s => { s with parser := .pushing }) (fun _ _ => rfl)
        (fun _ => rfl) taken
  | pushing =>
    rw [pc] at taken
    simp only [show (s.over q').parser = .pushing from pc]
    cases at_pc : ch.producer s.queue with
    | pushed env sent =>
      rw [at_pc] at taken
      cases sent with
      | true =>
        exact onQueue_then follows related ok (fun s => { s with parser := .sizing }) (fun _ _ => rfl)
          (fun _ => rfl) taken
      | false => exact onQueue_follows follows related ok taken
    | _ =>
      rw [at_pc] at taken
      exact onQueue_follows follows related ok taken
  | sizing =>
    rw [pc] at taken
    simp only [show (s.over q').parser = .sizing from pc]
    cases at_pc : ch.producer s.queue with
    | sized occ =>
      rw [at_pc] at taken
      cases taken
      exact ⟨default, q', rfl, related⟩
    | _ =>
      rw [at_pc] at taken
      exact onQueue_follows follows related ok taken
  | finished =>
    rw [pc] at taken
    cases taken

theorem builderStep_follows [Inhabited ι'] (follows : ch.Follows ch' rel Ok) (related : rel s.queue q') (ok : Ok q')
    (taken : builderStep ch dispatch s i = some s') :
    ∃ i' r', builderStep ch' dispatch (s.over q') i' = some (s'.over r') ∧ rel s'.queue r' := by
  have consumer : ch'.consumer (s.over q').queue = ch.consumer s.queue := follows.consumer related
  simp only [builderStep, consumer] at taken ⊢
  cases pc : s.consumer with
  | loop =>
    rw [pc] at taken
    simp only [show (s.over q').consumer = .loop from pc]
    exact onQueue_then follows related ok (fun s => { s with consumer := .popping }) (fun _ _ => rfl)
      (fun _ => rfl) taken
  | drain =>
    rw [pc] at taken
    simp only [show (s.over q').consumer = .drain from pc]
    exact onQueue_then follows related ok (fun s => { s with consumer := .draining }) (fun _ _ => rfl)
      (fun _ => rfl) taken
  | checkDone =>
    rw [pc] at taken
    simp only [show (s.over q').consumer = .checkDone from pc]
    obtain ⟨⟨told, queue⟩, loaded, rfl⟩ := Option.map_eq_some_iff.mp taken
    obtain ⟨i', r', loaded', still⟩ := follows.loadDone related ok loaded
    refine ⟨i', r', ?_, still⟩
    rw [show ch'.loadDone (s.over q').queue i' = some (told, r') from loaded']
    rfl
  | popping | draining =>
    rw [pc] at taken
    simp only [show (s.over q').consumer = s.consumer from rfl, pc]
    cases at_pc : ch.consumer s.queue with
    | popped out =>
      rw [at_pc] at taken
      cases out <;> cases taken <;> exact ⟨default, q', rfl, related⟩
    | _ =>
      rw [at_pc] at taken
      exact onQueue_follows follows related ok taken
  | exited =>
    rw [pc] at taken
    cases taken

theorem step_follows [Inhabited ι'] (follows : ch.Follows ch' rel Ok) (related : rel s.queue q') (ok : Ok q')
    {turn : Turn} (taken : step ch dispatch s turn i = some s') :
    ∃ i' r', step ch' dispatch (s.over q') turn i' = some (s'.over r') ∧ rel s'.queue r' := by
  cases turn with
  | parser => exact parserStep_follows follows related ok taken
  | builder => exact builderStep_follows follows related ok taken

end Simulation

end TwoThreads

end ItchLob.Pipeline
