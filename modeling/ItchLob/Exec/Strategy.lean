import Mathlib.Data.List.Induction
import ItchLob.Exec.Types

set_option autoImplicit false

namespace ItchLob.Exec

/-- What the caller of an execution strategy works with: the call it makes on
every event, and the child-order queue it may clear in between. -/
structure Strategy (σ ε : Type) where
  call : σ → ε → σ
  queue : σ → ChildOrderQueue
  withQueue : σ → ChildOrderQueue → σ

inductive Event (ε : Type) where
  | call (event : ε)
  | clear
  deriving DecidableEq, Repr

-- `accepted` is every child order the queue took since construction, cleared or not.
structure Desk (σ : Type) where
  strategy : σ
  accepted : List ChildOrder := []

def gained (before after : ChildOrderQueue) : List ChildOrder := after.orders.drop before.orders.length

theorem gained_self (q : ChildOrderQueue) : gained q q = [] := List.drop_length

theorem gained_append {before after : ChildOrderQueue} {orders : List ChildOrder}
    (grew : after.orders = before.orders ++ orders) : gained before after = orders := by
  rw [gained, grew, List.drop_left]

namespace Strategy

variable {σ ε : Type} (S : Strategy σ ε)

def step (d : Desk σ) : Event ε → Desk σ
  | .call event =>
    { strategy := S.call d.strategy event
      accepted := d.accepted ++ gained (S.queue d.strategy) (S.queue (S.call d.strategy event)) }
  | .clear => { d with strategy := S.withQueue d.strategy (S.queue d.strategy).clear }

def run (start : σ) (events : List (Event ε)) : Desk σ := events.foldl S.step { strategy := start }

def calls : List (Event ε) → List ε
  | [] => []
  | .call event :: rest => event :: calls rest
  | .clear :: rest => calls rest

def Throughout (suits : σ → ε → Prop) (start : σ) (events : List (Event ε)) : Prop :=
  ∀ before event after, events = before ++ .call event :: after → suits (S.run start before).strategy event

section Runs

variable {S} {start : σ} {suits : σ → ε → Prop}

theorem run_append (events : List (Event ε)) (e : Event ε) :
    S.run start (events ++ [e]) = S.step (S.run start events) e := by
  rw [run, List.foldl_append]
  rfl

theorem calls_append (events later : List (Event ε)) : calls (events ++ later) = calls events ++ calls later := by
  induction events with
  | nil => rfl
  | cons e rest ih => cases e <;> simp [calls, ih]

theorem calls_map (inputs : List ε) : calls (inputs.map .call) = inputs := by
  induction inputs with
  | nil => rfl
  | cons event rest ih => rw [List.map_cons, calls, ih]

theorem Throughout.earlier {events later : List (Event ε)}
    (throughout : S.Throughout suits start (events ++ later)) : S.Throughout suits start events := by
  intro before event after split
  exact throughout before event (after ++ later) (by simp [split])

theorem Throughout.last {events : List (Event ε)} {event : ε}
    (throughout : S.Throughout suits start (events ++ [.call event])) :
    suits (S.run start events).strategy event :=
  throughout events event [] rfl

theorem throughout_nil : S.Throughout suits start [] := by
  intro before event after split
  simp at split

theorem Throughout.snoc {events : List (Event ε)} (throughout : S.Throughout suits start events) {e : Event ε}
    (last : ∀ event, e = .call event → suits (S.run start events).strategy event) :
    S.Throughout suits start (events ++ [e]) := by
  intro before event after split
  rcases List.eq_nil_or_concat after with rfl | ⟨after, final, rfl⟩
  · obtain ⟨rfl, same⟩ := List.append_inj' split rfl
    exact last event (List.singleton_inj.mp same)
  · rw [List.concat_eq_append, ← List.cons_append, ← List.append_assoc] at split
    exact throughout before event after (List.append_inj' split rfl).1

theorem invariant_throughout (holds : Desk σ → List (Event ε) → Prop) (initial : holds { strategy := start } [])
    (call : ∀ events d event, holds d events → suits d.strategy event →
      holds (S.step d (.call event)) (events ++ [.call event]))
    (clear : ∀ events d, holds d events → holds (S.step d .clear) (events ++ [.clear]))
    (events : List (Event ε)) (throughout : S.Throughout suits start events) :
    holds (S.run start events) events := by
  induction events using List.reverseRecOn with
  | nil => exact initial
  | append_singleton events e ih =>
    have before := ih throughout.earlier
    rw [run_append]
    cases e with
    | call event => exact call events _ event before throughout.last
    | clear => exact clear events _ before

theorem invariant (holds : Desk σ → List (Event ε) → Prop) (initial : holds { strategy := start } [])
    (call : ∀ events d event, holds d events → holds (S.step d (.call event)) (events ++ [.call event]))
    (clear : ∀ events d, holds d events → holds (S.step d .clear) (events ++ [.clear]))
    (events : List (Event ε)) : holds (S.run start events) events := by
  have unconditional : S.Throughout (fun _ _ => True) start events := fun _ _ _ _ => trivial
  exact invariant_throughout holds initial (fun events d event before _ => call events d event before) clear
    events unconditional

theorem run_grows (measure : σ → Nat) (call : ∀ s event, measure s ≤ measure (S.call s event))
    (clear : ∀ s q, measure (S.withQueue s q) = measure s) {seen events : List (Event ε)}
    (earlier : seen <+: events) :
    measure (S.run start seen).strategy ≤ measure (S.run start events).strategy := by
  obtain ⟨later, rfl⟩ := earlier
  induction later using List.reverseRecOn with
  | nil => rw [List.append_nil]
  | append_singleton later e ih =>
    rw [← List.append_assoc, run_append]
    refine Nat.le_trans ih ?_
    cases e with
    | call event => exact call _ event
    | clear => exact Nat.le_of_eq (clear _ _).symm

theorem throughout_iff (holds : Desk σ → Prop) (initial : holds { strategy := start })
    (call : ∀ d event, holds d → (holds (S.step d (.call event)) ↔ suits d.strategy event))
    (clear : ∀ d, holds d → holds (S.step d .clear)) (events : List (Event ε)) :
    (∀ seen, seen <+: events → holds (S.run start seen)) ↔ S.Throughout suits start events := by
  constructor
  · intro always before event after split
    have here : before <+: events := ⟨_, split.symm⟩
    have next : before ++ [.call event] <+: events := ⟨after, by simp [split]⟩
    have after := always _ next
    rw [run_append] at after
    exact (call _ event (always _ here)).mp after
  · intro throughout seen ⟨later, split⟩
    subst split
    exact invariant_throughout (fun d _ => holds d) initial
      (fun _ d event before fits => (call d event before).mpr fits) (fun _ d before => clear d before) seen
      throughout.earlier

end Runs

theorem queue_uncleared (start : σ) (empty : (S.queue start).orders = [])
    (grows : ∀ before event, ∃ orders,
      (S.queue (S.call (S.run start before).strategy event)).orders =
        (S.queue (S.run start before).strategy).orders ++ orders)
    (inputs : List ε) :
    (S.queue (S.run start (inputs.map .call)).strategy).orders = (S.run start (inputs.map .call)).accepted := by
  induction inputs using List.reverseRecOn with
  | nil => exact empty
  | append_singleton inputs event ih =>
    obtain ⟨orders, grown⟩ := grows (inputs.map .call) event
    rw [List.map_append, List.map_singleton, run_append]
    simp only [step, gained_append grown]
    rw [grown, ih]

structure Embeds {τ : Type} (S : Strategy σ ε) (T : Strategy τ ε) (f : σ → τ) : Prop where
  call : ∀ s event, T.call (f s) event = f (S.call s event)
  queue : ∀ s, T.queue (f s) = S.queue s
  withQueue : ∀ s q, T.withQueue (f s) q = f (S.withQueue s q)

theorem Embeds.run {τ : Type} {S : Strategy σ ε} {T : Strategy τ ε} {f : σ → τ} (embeds : Embeds S T f)
    (start : σ) (events : List (Event ε)) :
    T.run (f start) events =
      { strategy := f (S.run start events).strategy, accepted := (S.run start events).accepted } := by
  induction events using List.reverseRecOn with
  | nil => rfl
  | append_singleton events e ih =>
    rw [run_append, run_append, ih]
    cases e with
    | call event => simp only [step, embeds.call, embeds.queue]
    | clear => simp only [step, embeds.queue, embeds.withQueue]

end Strategy

end ItchLob.Exec
