import ItchLob.Pipeline.Equivalence
import ItchLob.Pipeline.ThreadedOrders

set_option autoImplicit false

namespace ItchLob.Pipeline

namespace MemoryOrders

open ReleaseAcquire

section Newest

variable {T : Type}

-- The newest store of a location has this value.
def Ends (m : Shared T) (l : Atomic) (value : l.Value) : Prop :=
  ∃ older msg, m.history l = older ++ [msg] ∧ msg.value = value

theorem Ends.load {m : Shared T} {l : Atomic} {value : l.Value} (ends : Ends m l value) (order : Order) {t : Thread}
    (within : (m.view t).latest l < (m.history l).length) :
    ∃ i v, m.load order t l i = some (value, m.setView t v) := by
  obtain ⟨older, msg, history, rfl⟩ := ends
  obtain ⟨v, loaded⟩ := Memory.load_newest order history within
  exact ⟨_, v, loaded⟩

theorem Ends.stored (m : Shared T) (t : Thread) (l : Atomic) (value : l.Value) : Ends (m.store t l value) l value :=
  ⟨_, _, Memory.store_history_self t l value, rfl⟩

theorem Ends.apart {m : Shared T} {k l : Atomic} {value : k.Value} (ends : Ends m k value) (apart : k ≠ l)
    (t : Thread) (other : l.Value) : Ends (m.store t l other) k value := by
  rw [Ends, Memory.store_history_of_ne apart]
  exact ends

/-- The two models of the queue at one point, every store so far having been read. -/
structure Newest (q : SpscQueue.State T) (w : State T) : Prop where
  producer : w.producer = q.producer
  consumer : w.consumer = q.consumer
  pushed : w.pushed = q.pushed
  popped : w.popped = q.popped
  buf : w.memory.cell = q.buf
  tail : Ends w.memory .tail q.tail
  head : Ends w.memory .head q.head

variable {c : Capacity} {total : Nat} {q q' : SpscQueue.State T} {w : State T}

theorem newest_producer (newest : Newest q w) (inv : Inv c total w)
    (taken : SpscQueue.producerStep c q = some q') : ∃ i w', producerStep c w i = some w' ∧ Newest q' w' := by
  obtain ⟨memory, producer, consumer, pushed, popped⟩ := w
  obtain ⟨slots, front, back, producer', consumer', pushed', popped'⟩ := q
  obtain ⟨producers, consumers, pushes, pops, buf, tail, head⟩ := newest
  dsimp only at producers consumers pushes pops buf tail head
  subst producers consumers pushes pops buf
  have inside := inv.sound.within.threads .producer
  unfold SpscQueue.producerStep at taken
  unfold producerStep
  cases producer with
  | pushLoadTail v =>
    cases taken
    obtain ⟨i, v, loaded⟩ := tail.load .relaxed (inside .tail)
    exact ⟨i, _, congrArg (Option.map _) loaded, rfl, rfl, rfl, rfl, rfl, tail, head⟩
  | pushLoadHead v back =>
    obtain ⟨i, v, loaded⟩ := head.load .acquire (inside .head)
    refine ⟨i, _, congrArg (Option.map _) loaded, ?_⟩
    simp only at taken ⊢
    split at taken <;> cases taken
    next full => exact ⟨if_pos full, rfl, rfl, rfl, rfl, tail, head⟩
    next free => exact ⟨if_neg free, rfl, rfl, rfl, rfl, tail, head⟩
  | pushWrite v back next =>
    cases taken
    refine ⟨0, _, rfl, rfl, rfl, rfl, rfl, ?_, tail, head⟩
    funext i
    simp only [Memory.write, Function.update_apply]
  | pushStore v next =>
    cases taken
    exact ⟨0, _, rfl, rfl, rfl, rfl, rfl, rfl, Ends.stored _ _ .tail next, head.apart (by decide) _ _⟩
  | sizeLoadTail =>
    cases taken
    obtain ⟨i, v, loaded⟩ := tail.load .acquire (inside .tail)
    exact ⟨i, _, congrArg (Option.map _) loaded, rfl, rfl, rfl, rfl, rfl, tail, head⟩
  | sizeLoadHead back =>
    cases taken
    obtain ⟨i, v, loaded⟩ := head.load .acquire (inside .head)
    exact ⟨i, _, congrArg (Option.map _) loaded, rfl, rfl, rfl, rfl, rfl, tail, head⟩
  | idle | pushed v ok | sized n => cases taken

theorem newest_consumer (newest : Newest q w) (inv : Inv c total w)
    (taken : SpscQueue.consumerStep c q = some q') : ∃ i w', consumerStep c w i = some w' ∧ Newest q' w' := by
  obtain ⟨memory, producer, consumer, pushed, popped⟩ := w
  obtain ⟨slots, front, back, producer', consumer', pushed', popped'⟩ := q
  obtain ⟨producers, consumers, pushes, pops, buf, tail, head⟩ := newest
  dsimp only at producers consumers pushes pops buf tail head
  subst producers consumers pushes pops buf
  have inside := inv.sound.within.threads .consumer
  unfold SpscQueue.consumerStep at taken
  unfold consumerStep
  cases consumer with
  | popLoadHead =>
    cases taken
    obtain ⟨i, v, loaded⟩ := head.load .relaxed (inside .head)
    exact ⟨i, _, congrArg (Option.map _) loaded, rfl, rfl, rfl, rfl, rfl, tail, head⟩
  | popLoadTail front =>
    obtain ⟨i, v, loaded⟩ := tail.load .acquire (inside .tail)
    refine ⟨i, _, congrArg (Option.map _) loaded, ?_⟩
    simp only at taken ⊢
    split at taken <;> cases taken
    next drained => exact ⟨rfl, if_pos drained, rfl, rfl, rfl, tail, head⟩
    next more => exact ⟨rfl, if_neg more, rfl, rfl, rfl, tail, head⟩
  | popRead front =>
    cases taken
    exact ⟨0, _, rfl, rfl, rfl, rfl, rfl, rfl, tail, head⟩
  | popStore front out =>
    cases taken
    exact ⟨0, _, rfl, rfl, rfl, rfl, rfl, rfl, tail.apart (by decide) _ _, Ends.stored _ _ .head _⟩
  | sizeLoadTail =>
    cases taken
    obtain ⟨i, v, loaded⟩ := tail.load .acquire (inside .tail)
    exact ⟨i, _, congrArg (Option.map _) loaded, rfl, rfl, rfl, rfl, rfl, tail, head⟩
  | sizeLoadHead back =>
    cases taken
    obtain ⟨i, v, loaded⟩ := head.load .acquire (inside .head)
    exact ⟨i, _, congrArg (Option.map _) loaded, rfl, rfl, rfl, rfl, rfl, tail, head⟩
  | idle | popped out | sized n => cases taken

theorem newest_step (newest : Newest q w) (inv : Inv c total w) {m : SpscQueue.Move T}
    (taken : SpscQueue.step c q m = some q') : ∃ i w', step c w (Action.reading i m) = some w' ∧ Newest q' w' := by
  obtain ⟨producer, consumer, pushed, popped, buf, tail, head⟩ := newest
  cases m with
  | producer => exact newest_producer ⟨producer, consumer, pushed, popped, buf, tail, head⟩ inv taken
  | consumer => exact newest_consumer ⟨producer, consumer, pushed, popped, buf, tail, head⟩ inv taken
  | push v | producerSize =>
    simp only [SpscQueue.step] at taken
    split at taken <;> cases taken
    next free => exact ⟨0, _, if_pos (producer ▸ free), rfl, consumer, pushed, popped, buf, tail, head⟩
  | pop | consumerSize =>
    simp only [SpscQueue.step] at taken
    split at taken <;> cases taken
    next free => exact ⟨0, _, if_pos (consumer ▸ free), producer, rfl, pushed, popped, buf, tail, head⟩

end Newest

end MemoryOrders

namespace ThreadedOrders

open MemoryOrders
open TwoThreads (Channel)

section Newest

variable {E σ : Type} {c : Capacity} {dispatch : E → σ → σ} {produced : List E} {empty : σ} {s : Threaded.State E σ}

-- No access of the queue stores to producer_done.
theorem step_done {total : Nat} {q q' : MemoryOrders.State E} (inv : MemoryOrders.Inv c total q) {a : Action E}
    (taken : MemoryOrders.step c q a = some q') :
    q'.memory.history .producerDone = q.memory.history .producerDone := by
  cases a with
  | producer i => exact (producerStep_moved inv taken).done
  | consumer i => exact (consumerStep_moved inv taken).done
  | push v | producerSize | pop | consumerSize =>
    simp only [MemoryOrders.step] at taken
    split at taken <;> cases taken
    rfl

def Newest (q : Threaded.Memory E) (w : MemoryOrders.State E) : Prop :=
  MemoryOrders.Newest q.toState w ∧ Ends w.memory .producerDone q.producerDone

theorem follows (E : Type) (c : Capacity) (total : Nat) :
    (Threaded.channel E c).Follows (channel E c) Newest (MemoryOrders.Inv c total) where
  producer newest := newest.1.producer
  consumer newest := newest.1.consumer
  access newest inv taken := by
    obtain ⟨queue, moved, rfl⟩ := Threaded.access_eq taken
    obtain ⟨i, w', moved', still⟩ := newest_step newest.1 inv moved
    refine ⟨i, w', moved', still, ?_⟩
    rw [Ends, step_done inv moved']
    exact newest.2
  storeDone newest := by
    obtain ⟨⟨producer, consumer, pushed, popped, buf, tail, head⟩, -⟩ := newest
    exact ⟨⟨producer, consumer, pushed, popped, buf, tail.apart (by decide) _ _, head.apart (by decide) _ _⟩,
      Ends.stored _ _ .producerDone true⟩
  loadDone newest inv taken := by
    cases taken
    obtain ⟨i, v, loaded⟩ := newest.2.load .acquire (inv.sound.within.threads .consumer .producerDone)
    obtain ⟨⟨producer, consumer, pushed, popped, buf, tail, head⟩, done⟩ := newest
    exact ⟨i, _, congrArg (Option.map _) loaded, ⟨producer, consumer, pushed, popped, buf, tail, head⟩, done⟩

-- Every run of the interleaving model is a run of this one in which each load reads
-- the newest store.
theorem interleavings_included {blank : E}
    (reachable : Transition.Reachable (Threaded.step c dispatch) (Threaded.init blank produced empty) s) :
    ∃ w, Transition.Reachable (step c dispatch) (init blank produced empty) (s.over w) ∧ Newest s.queue w := by
  induction reachable with
  | start =>
    refine ⟨MemoryOrders.init blank, .start, ⟨rfl, rfl, rfl, rfl, rfl, ?_, ?_⟩, ?_⟩
    all_goals exact ⟨[], _, rfl, rfl⟩
  | move turn before taken ih =>
    obtain ⟨w, reachable, newest⟩ := ih
    have inv := (reachable_inv reachable).queue.1
    obtain ⟨i, w', moved, still⟩ := TwoThreads.step_follows (follows E c produced.length) newest inv taken
    exact ⟨w', reachable.move (turn, i) moved, still⟩

end Newest

end ThreadedOrders

open BookBuilder in
/-- The pipeline under its memory orders, whatever stale store each load reads: the two
threads never race for a slot; the builder holds what a first part of the messages made
of it; and once the book-builder thread has left its loop it has dispatched all of them,
once and in order, so that it holds what the single-threaded replay builds when no frame
of a known type has a wrong length. -/
theorem threaded_synchronizes (c : Capacity) {B : Type} (api : BookType B) (data : List UInt8)
    (s : ThreadedOrders.State Envelope (BookBuilder B))
    (reachable : Transition.Reachable (ThreadedOrders.step c (dispatchToBook api))
      (ThreadedOrders.init {} (produced data) {}) s) :
    ReleaseAcquire.RaceFree s.queue.memory.accesses ∧
      s.dispatched <+: s.queue.pushed ∧ s.queue.pushed <+: produced data ∧
      s.builder = s.dispatched.foldl (fun h env => dispatchToBook api env h) {} ∧
      s.maxOccupancy < c.value ∧
      (s.consumer = .exited →
        s.dispatched = produced data ∧ s.consumerFrames = (Itch.parseStream (handler api) data {}).2 ∧
          ((∀ p ∈ Framing.frames data, ¬ Corrupt p) → s.builder = (Itch.parseStream (handler api) data {}).1)) := by
  have inv := ThreadedOrders.reachable_inv reachable
  have lawful := ThreadedOrders.lawful Envelope c (produced data).length
  refine ⟨inv.queue.1.raceFree, inv.dispatched_le.trans (lawful.fifo inv.queue), inv.pushed_le, inv.built, inv.peak,
    fun gone => ?_⟩
  have all := inv.exited lawful gone
  refine ⟨all, ?_, fun intact => ?_⟩
  · rw [inv.frames, all, produced_events, List.length_map, parseStream_build]
  · have built := inv.built
    rw [all, produced_build, Itch.events, build_redispatch api _ intact] at built
    rw [built, parseStream_build]
    rfl

open BookBuilder in
-- Two messages through two slots, each load reading the newest store.
theorem threaded_synchronizes_two_slots :
    let c : Capacity := ⟨1, by decide, by decide⟩
    let data := ([83, 68].map fun type => Framing.frame (type :: List.replicate 18 0)).flatten
    ∃ s, Transition.Reachable (ThreadedOrders.step c (dispatchToBook orderBook))
        (ThreadedOrders.init {} (produced data) {}) s ∧ s.consumer = .exited ∧
      ReleaseAcquire.RaceFree s.queue.memory.accesses ∧
      s.builder = (Itch.parseStream (handler orderBook) data {}).1 := by
  intro c data
  obtain ⟨t, ran, gone⟩ := Threaded.run_finishes c (dispatchToBook orderBook) {} (produced data) {}
  obtain ⟨w, reachable, -⟩ := ThreadedOrders.interleavings_included ran
  have synchronizes := threaded_synchronizes c orderBook data (t.over w) reachable
  exact ⟨t.over w, reachable, gone, synchronizes.1, (synchronizes.2.2.2.2.2 gone).2.2 (by decide +kernel)⟩

end ItchLob.Pipeline
