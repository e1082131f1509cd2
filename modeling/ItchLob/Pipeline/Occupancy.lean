import ItchLob.Pipeline.Threaded

set_option autoImplicit false

namespace ItchLob.Pipeline

namespace SpscQueue

variable {T : Type} {c : Capacity} {s s' : State T}

-- Loaded at one instant, the two indices subtract to what is held there, however
-- often they have wrapped.
theorem Inv.size_held (inv : Inv c s) : size c s.tail s.head = s.held := by
  have order := inv.order
  have room := inv.room
  have small : s.held < c.value := by
    rw [State.held]
    omega
  have head : s.head < c.value := by
    rw [inv.head]
    exact Nat.mod_lt _ (by omega)
  have tail : s.tail = (s.held + s.head) % c.value := by
    rw [inv.head, Nat.add_mod_mod, inv.tail, State.held, Nat.sub_add_cancel order]
  obtain ⟨wraps, width⟩ : c.value ∣ 2 ^ 64 := Nat.pow_dvd_pow 2 (Nat.le_of_lt c.fits)
  have positive : 0 < wraps := Nat.pos_of_ne_zero fun zero => by simp [zero] at width
  have fits : c.value ≤ c.value * wraps := Nat.le_mul_of_pos_right _ positive
  have distance : ∃ k, s.tail + c.value * wraps - s.head = s.held + c.value * k := by
    by_cases straight : s.held + s.head < c.value
    · rw [Nat.mod_eq_of_lt straight] at tail
      exact ⟨wraps, by omega⟩
    · -- tail_ has wrapped past head_
      rw [Nat.mod_eq_sub_mod (by omega), Nat.mod_eq_of_lt (by omega)] at tail
      obtain ⟨less, rfl⟩ : ∃ n, wraps = n + 1 := ⟨wraps - 1, by omega⟩
      refine ⟨less, ?_⟩
      rw [Nat.mul_add_one]
      omega
  obtain ⟨k, same⟩ := distance
  rw [size, c.masked, width, same, Nat.mod_mod_of_dvd _ (Nat.dvd_mul_right _ _), Nat.add_mul_mod_self_left,
    Nat.mod_eq_of_lt small]

def Producer.Sizing : Producer T → Prop
  | .sizeLoadTail => True
  | .sizeLoadHead _ => True
  | _ => False

def Consumer.Sizing : Consumer T → Prop
  | .sizeLoadTail => True
  | .sizeLoadHead _ => True
  | _ => False

theorem producerStep_sizing (access : producerStep c s = some s') :
    (∀ tail, s'.producer = .sizeLoadHead tail → tail = s.tail ∧ s'.tail = s.tail) ∧
      ∀ n, s'.producer = .sized n → ∃ tail, s.producer = .sizeLoadHead tail ∧ n = size c tail s.head := by
  unfold producerStep at access
  cases pc : s.producer with
  | sizeLoadTail =>
    rw [pc] at access
    cases access
    refine ⟨fun tail loaded => ?_, nofun⟩
    cases loaded
    exact ⟨rfl, rfl⟩
  | sizeLoadHead tail =>
    rw [pc] at access
    cases access
    refine ⟨nofun, fun n returned => ?_⟩
    cases returned
    exact ⟨tail, rfl, rfl⟩
  | pushLoadHead v tail =>
    rw [pc] at access
    simp only at access
    split at access <;> cases access <;> exact ⟨nofun, nofun⟩
  | idle | pushed v ok | sized n =>
    rw [pc] at access
    cases access
  | _ =>
    rw [pc] at access
    cases access
    exact ⟨nofun, nofun⟩

theorem consumerStep_sizing (access : consumerStep c s = some s') :
    (∀ tail, s'.consumer = .sizeLoadHead tail →
        s.consumer = .sizeLoadTail ∧ tail = s.tail ∧ s'.head = s.head) ∧
      ∀ n, s'.consumer = .sized n → ∃ tail, s.consumer = .sizeLoadHead tail ∧ n = size c tail s.head := by
  unfold consumerStep at access
  cases pc : s.consumer with
  | sizeLoadTail =>
    rw [pc] at access
    cases access
    refine ⟨fun tail loaded => ?_, nofun⟩
    cases loaded
    exact ⟨rfl, rfl, rfl⟩
  | sizeLoadHead tail =>
    rw [pc] at access
    cases access
    refine ⟨nofun, fun n returned => ?_⟩
    cases returned
    exact ⟨tail, rfl, rfl⟩
  | popLoadTail head =>
    rw [pc] at access
    simp only at access
    split at access <;> cases access <;> exact ⟨nofun, nofun⟩
  | idle | popped out | sized n =>
    rw [pc] at access
    cases access
  | _ =>
    rw [pc] at access
    cases access
    exact ⟨nofun, nofun⟩

-- The producer's own index stands still while it counts.
structure Counting (c : Capacity) (s : State T) : Prop where
  inv : Inv c s
  loaded : ∀ tail, s.producer = .sizeLoadHead tail → tail = s.tail

theorem Counting.move (counting : Counting c s) {m : Move T} (taken : step c s m = some s') :
    Counting c s' ∧ ∀ n, s'.producer = .sized n → s.producer = .sized n ∨ s.producer.Sizing ∧ s.held = n := by
  have inv := step_inv counting.inv taken
  rcases step_producer taken with ⟨same, kept⟩ | access | ⟨v, rfl⟩ | rfl
  · refine ⟨⟨inv, fun tail loaded => ?_⟩, fun n returned => .inl (same ▸ returned)⟩
    exact (counting.loaded tail (same ▸ loaded)).trans kept.symm
  · obtain ⟨loads, returns⟩ := producerStep_sizing access
    refine ⟨⟨inv, fun tail loaded => ?_⟩, fun n returned => ?_⟩
    · obtain ⟨here, kept⟩ := loads tail loaded
      exact here.trans kept.symm
    · obtain ⟨tail, pc, rfl⟩ := returns n returned
      refine .inr ⟨?_, ?_⟩
      · rw [pc]
        trivial
      · rw [counting.loaded tail pc, counting.inv.size_held]
  · exact ⟨⟨inv, nofun⟩, nofun⟩
  · exact ⟨⟨inv, nofun⟩, nofun⟩

def ProducerReport (c : Capacity) (called : State T) (done : List (Move T)) (s : State T) : Prop :=
  Counting c s ∧ ∀ n, s.producer = .sized n →
    Transition.Passes (step c) called done fun t => t.producer.Sizing ∧ t.held = n

theorem ProducerReport.move {called : State T} {done : List (Move T)} {m : Move T}
    (report : ProducerReport c called done s) (runs : Transition.execute (step c) called done = some s)
    (taken : step c s m = some s') : ProducerReport c called (done ++ [m]) s' := by
  obtain ⟨counting, returns⟩ := report.1.move taken
  refine ⟨counting, fun n returned => ?_⟩
  rcases returns n returned with earlier | now
  · exact (report.2 n earlier).snoc m
  · exact (Transition.Passes.last runs now).snoc m

-- The consumer's own index stands still: what it reports was held when it loaded tail_.
structure ConsumerReport (c : Capacity) (called : State T) (done : List (Move T)) (s : State T) : Prop where
  inv : Inv c s
  loaded : ∀ tail, s.consumer = .sizeLoadHead tail →
    Transition.Passes (step c) called done fun t => t.consumer.Sizing ∧ t.held = size c tail s.head
  sized : ∀ n, s.consumer = .sized n →
    Transition.Passes (step c) called done fun t => t.consumer.Sizing ∧ t.held = n

theorem ConsumerReport.move {called : State T} {done : List (Move T)} {m : Move T}
    (report : ConsumerReport c called done s) (runs : Transition.execute (step c) called done = some s)
    (taken : step c s m = some s') : ConsumerReport c called (done ++ [m]) s' := by
  refine ⟨step_inv report.inv taken, fun tail loaded => ?_, fun n returned => ?_⟩
  · rcases step_consumer taken with ⟨same, kept⟩ | access | rfl | rfl
    · rw [kept]
      exact (report.loaded tail (same ▸ loaded)).snoc m
    · obtain ⟨pc, rfl, kept⟩ := (consumerStep_sizing access).1 tail loaded
      refine (Transition.Passes.last runs ⟨?_, ?_⟩).snoc m
      · rw [pc]
        trivial
      · rw [kept, report.inv.size_held]
    · cases loaded
    · cases loaded
  · rcases step_consumer taken with ⟨same, -⟩ | access | rfl | rfl
    · exact (report.sized n (same ▸ returned)).snoc m
    · obtain ⟨tail, pc, rfl⟩ := (consumerStep_sizing access).2 n returned
      exact (report.loaded tail pc).snoc m
    · cases returned
    · cases returned

theorem producerSize_called {called : State T} (made : step c s .producerSize = some called) :
    called.producer = .sizeLoadTail := by
  simp only [step] at made
  split at made <;> cases made
  rfl

theorem consumerSize_called {called : State T} (made : step c s .consumerSize = some called) :
    called.consumer = .sizeLoadTail := by
  simp only [step] at made
  split at made <;> cases made
  rfl

theorem passes_bounded {blank : T} {called : State T} {schedule : List (Move T)} {during : State T → Prop} {n : Nat}
    (reachable : Transition.Reachable (step c) (init blank) called)
    (passes : Transition.Passes (step c) called schedule fun t => during t ∧ t.held = n) : n ≤ c.value - 1 := by
  obtain ⟨moves, t, -, runs, -, rfl⟩ := passes
  have room := (reachable_inv (reachable.execute runs)).room
  rw [State.held]
  omega

end SpscQueue

namespace Threaded

open SpscQueue
open TwoThreads (Turn)

variable {E σ : Type} {c : Capacity} {dispatch : E → σ → σ} {s s' : State E σ}

structure Peak (c : Capacity) (dispatch : E → σ → σ) (start : State E σ) (done : List Turn) (s : State E σ) :
    Prop where
  counting : Counting c s.queue.toState
  sized : ∀ n, s.queue.producer = .sized n →
    Transition.Passes (step c dispatch) start done fun t => n ≤ t.queue.held
  seen : Transition.Passes (step c dispatch) start done fun t => s.maxOccupancy ≤ t.queue.held

theorem Peak.turn {start : State E σ} {done : List Turn} {turn : Turn} (peak : Peak c dispatch start done s)
    (runs : Transition.execute (step c dispatch) start done = some s)
    (taken : step c dispatch s turn = some s') : Peak c dispatch start (done ++ [turn]) s' := by
  obtain ⟨m, moved, kept⟩ | ⟨same, peaks⟩ := step_moves taken
  · obtain ⟨counting, returns⟩ := peak.counting.move moved
    refine ⟨counting, fun n returned => ?_, ?_⟩
    · rcases returns n returned with earlier | ⟨-, rfl⟩
      · exact (peak.sized n earlier).snoc turn
      · exact (Transition.Passes.last runs (Nat.le_refl _)).snoc turn
    · rw [kept]
      exact peak.seen.snoc turn
  · refine ⟨same ▸ peak.counting, fun n returned => ?_, ?_⟩
    · exact (peak.sized n (same ▸ returned)).snoc turn
    · rcases peaks with kept | returned
      · rw [kept]
        exact peak.seen.snoc turn
      · exact (peak.sized _ returned).snoc turn

theorem run_peak {blank : E} {produced : List E} {start : σ} {turns : List Turn}
    (runs : Transition.execute (step c dispatch) (init blank produced start) turns = some s) :
    Peak c dispatch (init blank produced start) turns s := by
  refine Transition.execute_invariant runs ⟨⟨SpscQueue.init_inv blank, nofun⟩, nofun, ?_⟩ ?_
  · exact Transition.Passes.last rfl (Nat.zero_le _)
  · exact fun done t turn t' before peak taken => peak.turn before taken

end Threaded

/-- Backpressure is reported truthfully. Whatever the other side does between its
two loads, a size call of either thread returns what was held at some instant of
the call, never more than Capacity - 1; so the parser thread's max_occupancy is
never more than what the queue has held. -/
theorem size_truthful {T : Type} (c : Capacity) (blank : T) (s called s' : SpscQueue.State T)
    (schedule : List (SpscQueue.Move T)) (n : Nat)
    (reachable : Transition.Reachable (SpscQueue.step c) (SpscQueue.init blank) s)
    (runs : Transition.execute (SpscQueue.step c) called schedule = some s') :
    (SpscQueue.step c s .producerSize = some called → s'.producer = .sized n →
      n ≤ c.value - 1 ∧
        Transition.Passes (SpscQueue.step c) called schedule fun t => t.producer.Sizing ∧ t.held = n) ∧
    (SpscQueue.step c s .consumerSize = some called → s'.consumer = .sized n →
      n ≤ c.value - 1 ∧
        Transition.Passes (SpscQueue.step c) called schedule fun t => t.consumer.Sizing ∧ t.held = n) ∧
    ∀ (E σ : Type) (dispatch : E → σ → σ) (first : E) (produced : List E) (start : σ)
      (turns : List TwoThreads.Turn) (after : Threaded.State E σ),
      Transition.execute (Threaded.step c dispatch) (Threaded.init first produced start) turns = some after →
      Transition.Passes (Threaded.step c dispatch) (Threaded.init first produced start) turns
        fun t => after.maxOccupancy ≤ t.queue.held := by
  refine ⟨fun made returned => ?_, fun made returned => ?_, fun E σ dispatch first produced start turns after ran =>
    (Threaded.run_peak ran).seen⟩
  · have begun := reachable.move _ made
    have report : SpscQueue.ProducerReport c called schedule s' := by
      refine Transition.execute_invariant runs ⟨⟨SpscQueue.reachable_inv begun, ?_⟩, ?_⟩ ?_
      · exact fun tail loaded => absurd loaded (by rw [SpscQueue.producerSize_called made]; nofun)
      · exact fun n loaded => absurd loaded (by rw [SpscQueue.producerSize_called made]; nofun)
      · exact fun done t m t' before report taken => report.move before taken
    exact ⟨SpscQueue.passes_bounded begun (report.2 n returned), report.2 n returned⟩
  · have begun := reachable.move _ made
    have report : SpscQueue.ConsumerReport c called schedule s' := by
      refine Transition.execute_invariant runs ⟨SpscQueue.reachable_inv begun, ?_, ?_⟩ ?_
      · exact fun tail loaded => absurd loaded (by rw [SpscQueue.consumerSize_called made]; nofun)
      · exact fun n loaded => absurd loaded (by rw [SpscQueue.consumerSize_called made]; nofun)
      · exact fun done t m t' before report taken => report.move before taken
    exact ⟨SpscQueue.passes_bounded begun (report.sized n returned), report.sized n returned⟩

-- Capacity 4, three elements pushed: the consumer takes two of them between the
-- producer's two loads, and the producer's call returns the one that is left.
theorem size_truthful_between :
    let c : Capacity := ⟨2, by decide, by decide⟩
    let push (v : Nat) : List (SpscQueue.Move Nat) := [.push v, .producer, .producer, .producer, .producer]
    let pop : List (SpscQueue.Move Nat) := [.pop, .consumer, .consumer, .consumer, .consumer]
    let call := [.producer] ++ pop ++ pop ++ [.producer]
    ∃ s called s', Transition.execute (SpscQueue.step c) (SpscQueue.init 0) (push 5 ++ push 6 ++ push 7) = some s ∧
      SpscQueue.step c s .producerSize = some called ∧ Transition.execute (SpscQueue.step c) called call = some s' ∧
      s'.producer = .sized 1 ∧
      Transition.Passes (SpscQueue.step c) called call fun t => t.producer.Sizing ∧ t.held = 1 := by
  intro c push pop call
  have outcome : (Transition.execute (SpscQueue.step c) (SpscQueue.init 0)
      (push 5 ++ push 6 ++ push 7 ++ .producerSize :: call)).map SpscQueue.State.producer = some (.sized 1) := by
    decide
  obtain ⟨s', whole, returned⟩ := Option.map_eq_some_iff.mp outcome
  rw [Transition.execute_append] at whole
  obtain ⟨s, pushed, onward⟩ := Option.bind_eq_some_iff.mp whole
  obtain ⟨called, made, runs⟩ := Option.bind_eq_some_iff.mp onward
  have truthful := size_truthful c 0 s called s' call 1 (Transition.Reachable.start.execute pushed) runs
  exact ⟨s, called, s', pushed, made, runs, returned, (truthful.1 made returned).2⟩

end ItchLob.Pipeline
