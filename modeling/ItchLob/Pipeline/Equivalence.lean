import ItchLob.Pipeline.BookBuilder
import ItchLob.Pipeline.Threaded

set_option autoImplicit false

namespace ItchLob.Pipeline

open Itch Book BookBuilder

/-- The union's active member. -/
inductive Payload where
  | add (m : AddOrder)
  | exec (m : OrderExecuted)
  | execPrice (m : OrderExecutedPrice)
  | cancel (m : OrderCancel)
  | del (m : OrderDelete)
  | replace (m : OrderReplace)
  deriving DecidableEq, Repr

structure Envelope where
  type : UInt8 := 0
  payload : Payload := .add {}
  deriving DecidableEq, Repr

namespace Envelope

-- The only inactive member ever read overlays a zeroed AddOrder, so it reads as
-- the zero message of its own type.
def add (env : Envelope) : AddOrder := match env.payload with | .add m => m | _ => {}
def exec (env : Envelope) : OrderExecuted := match env.payload with | .exec m => m | _ => {}
def execPrice (env : Envelope) : OrderExecutedPrice := match env.payload with | .execPrice m => m | _ => {}
def cancel (env : Envelope) : OrderCancel := match env.payload with | .cancel m => m | _ => {}
def del (env : Envelope) : OrderDelete := match env.payload with | .del m => m | _ => {}
def replace (env : Envelope) : OrderReplace := match env.payload with | .replace m => m | _ => {}

end Envelope

-- What QueueProducer's callback hands to push_spin.
def queueProducer : Event → Envelope
  | .add m => ⟨'A'.toUInt8, .add m⟩
  | .execute m => ⟨'E'.toUInt8, .exec m⟩
  | .executePrice m => ⟨'C'.toUInt8, .execPrice m⟩
  | .cancel m => ⟨'X'.toUInt8, .cancel m⟩
  | .delete m => ⟨'D'.toUInt8, .del m⟩
  | .replace m => ⟨'U'.toUInt8, .replace m⟩
  | .other type _ => ⟨type, .add {}⟩

def dispatchToBook {B : Type} (api : BookType B) (env : Envelope) (h : BookBuilder B) : BookBuilder B :=
  if env.type = 'A'.toUInt8 ∨ env.type = 'F'.toUInt8 then h.onAdd api env.add
  else if env.type = 'E'.toUInt8 then h.onExecute api env.exec
  else if env.type = 'C'.toUInt8 then h.onExecutePrice api env.execPrice
  else if env.type = 'X'.toUInt8 then h.onCancel api env.cancel
  else if env.type = 'D'.toUInt8 then h.onDelete api env.del
  else if env.type = 'U'.toUInt8 then h.onReplace api env.replace
  else h.onOther env.type 0

-- The parser thread's decode: parse_stream into a QueueProducer, as the list of
-- envelopes it pushes.
def produced (data : List UInt8) : List Envelope :=
  (parseStream (fun e sent => sent ++ [queueProducer e]) data []).1

-- The callback an envelope ends up in after the queue.
def redispatch : Event → Event
  | .other type _ =>
    if type = 'A'.toUInt8 ∨ type = 'F'.toUInt8 then .add {}
    else if type = 'E'.toUInt8 then .execute {}
    else if type = 'C'.toUInt8 then .executePrice {}
    else if type = 'X'.toUInt8 then .cancel {}
    else if type = 'D'.toUInt8 then .delete {}
    else if type = 'U'.toUInt8 then .replace {}
    else .other type 0
  | e => e

/-- A frame of a known type whose length is not the one its type has. -/
def Corrupt (p : List UInt8) : Prop :=
  0 ≤ wireSize (p.getD 0 0) ∧ wireSize (p.getD 0 0) ≠ p.length

instance (p : List UInt8) : Decidable (Corrupt p) := inferInstanceAs (Decidable (_ ∧ _))

theorem event_other {p : List UInt8} {type : UInt8} {len : Nat} (refused : event p = .other type len) :
    type = p.getD 0 0 ∧ len = p.length ∧ (wireSize (p.getD 0 0) < 0 ∨ wireSize (p.getD 0 0) ≠ p.length) := by
  unfold event decode at refused
  simp only at refused
  split at refused
  next wrong =>
    cases refused
    exact ⟨rfl, rfl, wrong⟩
  next =>
    repeat' split at refused
    all_goals cases refused

theorem event_corrupt {p : List UInt8} (corrupt : Corrupt p) : event p = .other (p.getD 0 0) p.length := by
  unfold event decode
  simp only
  rw [if_pos (.inr corrupt.2)]

theorem refused_unknown {p : List UInt8} {type : UInt8} {len : Nat} (intact : ¬ Corrupt p)
    (refused : event p = .other type len) : wireSize type < 0 := by
  obtain ⟨rfl, -, wrong⟩ := event_other refused
  by_contra known
  exact intact ⟨Int.not_lt.mp known, wrong.resolve_left known⟩

theorem redispatch_unknown {type : UInt8} {len : Nat} (unknown : wireSize type < 0) :
    redispatch (.other type len) = .other type 0 := by
  have differs (t : UInt8) (known : 0 ≤ wireSize t) : type ≠ t := by
    rintro rfl
    omega
  simp [redispatch, differs 'A'.toUInt8 (by decide), differs 'F'.toUInt8 (by decide),
    differs 'E'.toUInt8 (by decide), differs 'C'.toUInt8 (by decide), differs 'X'.toUInt8 (by decide),
    differs 'D'.toUInt8 (by decide), differs 'U'.toUInt8 (by decide)]

theorem known_type {type : UInt8} (known : 0 ≤ wireSize type) :
    type = 'A'.toUInt8 ∨ type = 'F'.toUInt8 ∨ type = 'E'.toUInt8 ∨ type = 'C'.toUInt8 ∨
      type = 'X'.toUInt8 ∨ type = 'D'.toUInt8 ∨ type = 'U'.toUInt8 := by
  by_contra other
  simp only [not_or] at other
  simp [wireSize, other] at known

theorem redispatch_known {type : UInt8} {len : Nat} (known : 0 ≤ wireSize type) :
    addressed 0 (redispatch (.other type len)) := by
  rcases known_type known with rfl | rfl | rfl | rfl | rfl | rfl | rfl <;> rfl

section Redispatch

variable {B : Type} (api : BookType B)

theorem dispatchToBook_queueProducer (e : Event) (h : BookBuilder B) :
    dispatchToBook api (queueProducer e) h = handler api (redispatch e) h := by
  cases e with
  | other type len =>
    simp only [redispatch, apply_ite (fun e => handler api e h)]
    rfl
  | _ m => rfl

theorem foldl_sent (es : List Event) (sent : List Envelope) :
    es.foldl (fun sent e => sent ++ [queueProducer e]) sent = sent ++ es.map queueProducer := by
  induction es generalizing sent with
  | nil => simp
  | cons e rest ih => simp [ih]

theorem produced_events (data : List UInt8) : produced data = (events data).map queueProducer := by
  rw [produced, parseStream_events, foldl_sent, List.nil_append]

theorem produced_build (data : List UInt8) :
    (produced data).foldl (fun h env => dispatchToBook api env h) {} =
      build api ((events data).map redispatch) := by
  rw [produced_events, build, List.foldl_map, List.foldl_map]
  simp only [dispatchToBook_queueProducer]

-- Only a frame that the first dispatch refused to decode can change its callback.
theorem redispatch_intact {p : List UInt8} (intact : ¬ Corrupt p) (h : BookBuilder B) :
    handler api (redispatch (event p)) h = handler api (event p) h := by
  cases refused : event p with
  | other type len =>
    rw [redispatch_unknown (refused_unknown intact refused)]
    rfl
  | _ m => rfl

end Redispatch

structure Same {B : Type} (threaded single : BookBuilder B) : Prop where
  counts : threaded.counts = single.counts
  unknownRefs : threaded.unknownRefs = single.unknownRefs
  books : ∀ locate, threaded.books.find locate = single.books.find locate

-- A book type that remembers how often it was called.
def tally : BookType Nat where
  make _ := 0
  add n _ _ _ _ := (true, n + 1)
  execute n _ _ := (true, n + 1)
  cancel n _ _ := (true, n + 1)
  remove n _ := (true, n + 1)
  replace n _ _ _ _ := (true, n + 1)

instance (locate : UInt16) (e : Event) : Decidable (addressed locate e) :=
  inferInstanceAs (Decidable (_ = _))

theorem tally_call (n : Nat) (c : Call) : tally.call n c = (true, n + 1) := by
  cases c <;> rfl

theorem tally_build (locate : UInt16) (es : List Event) :
    ((build tally es).books.find locate).getD 0 = es.countP fun e => addressed locate e := by
  induction es using List.reverseRecOn with
  | nil => simp [build, BookTable.find]
  | append_singleton seen e ih =>
    rw [build_append, List.countP_append, List.countP_singleton, ← ih]
    by_cases here : addressed locate e
    · obtain ⟨r, asks, same⟩ := Option.map_eq_some_iff.mp here
      rw [request_find tally asks, if_pos same, tally_call]
      simp [here, tally]
    · rw [unaddressed_find tally here]
      simp [here]

theorem redispatch_countP (frames : List (List UInt8)) :
    ((frames.map event).map redispatch).countP (fun e => addressed 0 e) =
      (frames.map event).countP (fun e => addressed 0 e) + frames.countP (fun p => Corrupt p) := by
  induction frames with
  | nil => rfl
  | cons p rest ih =>
    have head : (if addressed 0 (redispatch (event p)) then 1 else 0) =
        (if addressed 0 (event p) then 1 else 0) + if Corrupt p then 1 else 0 := by
      by_cases corrupt : Corrupt p
      · have apart : ¬ addressed 0 (Event.other (p.getD 0 0) p.length) := nofun
        rw [event_corrupt corrupt, if_pos (redispatch_known corrupt.1), if_neg apart, if_pos corrupt]
      · have same : addressed 0 (redispatch (event p)) ↔ addressed 0 (event p) := by
          cases refused : event p with
          | other type len =>
            rw [redispatch_unknown (refused_unknown corrupt refused)]
            exact ⟨nofun, nofun⟩
          | _ m => rfl
        simp only [same, corrupt, if_false, Nat.add_zero]
    simp only [List.map_cons, List.countP_cons, decide_eq_true_eq]
    rw [ih, head]
    omega

theorem build_redispatch {B : Type} (api : BookType B) (frames : List (List UInt8))
    (intact : ∀ p ∈ frames, ¬ Corrupt p) :
    build api ((frames.map event).map redispatch) = build api (frames.map event) := by
  induction frames using List.reverseRecOn with
  | nil => rfl
  | append_singleton seen p ih =>
    have earlier := ih fun q inside => intact q (by simp [inside])
    simp only [List.map_append, List.map_cons, List.map_nil] at earlier ⊢
    rw [build_append, build_append, earlier, redispatch_intact api (intact p (by simp))]

/-- The threaded pipeline builds what the single-threaded one builds, for every
queue size, book type and interleaving, exactly when no frame of a known type
has a wrong length. -/
theorem threaded_equals_single (data : List UInt8) :
    (∀ (c : Capacity) (B : Type) (api : BookType B) (s : Threaded.State Envelope (BookBuilder B)),
      Transition.Reachable (Threaded.step c (dispatchToBook api)) (Threaded.init {} (produced data) {}) s →
      s.consumer = .exited →
      Same s.builder (parseStream (handler api) data {}).1 ∧
        s.consumerFrames = (parseStream (handler api) data {}).2) ↔
      ∀ p ∈ Framing.frames data, ¬ Corrupt p := by
  constructor
  · intro agree p inside corrupt
    let c : Capacity := ⟨1, by decide, by decide⟩
    obtain ⟨s, reachable, gone⟩ :=
      Threaded.run_finishes c (dispatchToBook tally) {} (produced data) {}
    obtain ⟨same, -⟩ := agree c Nat tally s reachable gone
    have books := same.books 0
    rw [(Threaded.exited (Threaded.reachable_inv reachable) gone).2.2.2, produced_build, parseStream_build] at books
    have calls := congrArg (Option.getD · 0) books
    simp only [tally_build, events, redispatch_countP] at calls
    have none : (Framing.frames data).countP (fun p => Corrupt p) = 0 := by omega
    rw [List.countP_eq_zero] at none
    exact none p inside (by simpa using corrupt)
  · intro intact c B api s reachable gone
    obtain ⟨-, all, frames, built⟩ := Threaded.exited (Threaded.reachable_inv reachable) gone
    have counted := (Threaded.reachable_inv reachable).frames
    rw [produced_build, events, build_redispatch api _ intact] at built
    rw [parseStream_build, built]
    refine ⟨⟨rfl, rfl, fun _ => rfl⟩, ?_⟩
    rw [counted, all, produced_events, List.length_map]

-- One byte of payload, the type byte of an add: parse_stream counts it as
-- unhandled, the threaded pipeline adds a zero order at locate 0.
theorem threaded_applies_corrupt_add :
    let data : List UInt8 := [0, 1, 65]
    let c : Capacity := ⟨1, by decide, by decide⟩
    ∃ s, Transition.Reachable (Threaded.step c (dispatchToBook orderBook))
        (Threaded.init {} (produced data) {}) s ∧ s.consumer = .exited ∧
      ¬ Same s.builder (parseStream (handler orderBook) data {}).1 := by
  intro data c
  obtain ⟨s, reachable, gone⟩ :=
    Threaded.run_finishes c (dispatchToBook orderBook) {} (produced data) {}
  refine ⟨s, reachable, gone, fun same => ?_⟩
  have books := same.books 0
  rw [(Threaded.exited (Threaded.reachable_inv reachable) gone).2.2.2] at books
  have present := congrArg Option.isSome books
  revert present
  decide

end ItchLob.Pipeline
