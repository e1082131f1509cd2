import ItchLob.Io.GzipMembers
import ItchLob.Pipeline.Equivalence
import ItchLob.Pipeline.ReplayReport
import ItchLob.Pipeline.ThreadedProgress

set_option autoImplicit false

namespace ItchLob.Pipeline

open Itch Book BookBuilder Fairness Io

namespace ThreadedReport

/-- What both binaries replay: a mapped file or a buffer, or a gzip file. -/
inductive Source (ζ : Type) where
  | buffer (data : List UInt8)
  | gzip (z : Zlib ζ) (path : String) (chunkSize : Nat) (file : File) (fuel : Nat)

structure Walked (σ : Type) where
  handler : σ
  bytes : Nat
  result : Except String Nat

-- No value while the loops of a gzip source are out of fuel.
def Source.walk {ζ σ : Type} (src : Source ζ) (h : Handler σ) (s : σ) : Option (Walked σ) :=
  match src with
  | .buffer data =>
    let parsed := parseStream h data s
    some { handler := parsed.1, bytes := data.length, result := .ok parsed.2 }
  | .gzip z path chunkSize file fuel =>
    (GzipSource.run z { path, chunkSize, file } h s fuel).map fun o =>
      { handler := o.handler, bytes := o.bytesDecompressed, result := o.result.mapError (Error.what path) }

/-- How replay_main ends: a report and 0, or an error line and 1. -/
inductive Exit where
  | printed (r : Report)
  | failed (what : String)

def runSingle {ζ B : Type} (reads : BookReads B) (api : BookType B) (src : Source ζ) : Option Exit :=
  (src.walk (handler api) {}).map fun w =>
    match w.result with
    | .ok frames => .printed (report reads w.handler w.bytes frames)
    | .error what => .failed what

/-- The process of replay_threaded_main while its two threads run. -/
inductive Process (σ : Type) where
  | running (s : Threaded.State Envelope σ)
  | terminated

section Process

variable {B : Type} (reads : BookReads B) (api : BookType B) (c : Capacity)

-- decode has pushed all it pushes; an exception that then leaves the thread's
-- function is std::terminate, not the catch of dispatch_args.
def Process.step (throws : Bool) : Process (BookBuilder B) → TwoThreads.Turn → Option (Process (BookBuilder B))
  | .terminated, _ => none
  | .running s, turn =>
    if throws = true ∧ turn = .parser ∧ s.parser = .ready ∧ s.todo = [] then some .terminated
    else (Threaded.step c (dispatchToBook api) s turn).map .running

def Source.spawn {ζ : Type} (src : Source ζ) : Option (Walked (Process (BookBuilder B))) :=
  (src.walk (fun e sent => sent ++ [queueProducer e]) []).map fun w =>
    { w with handler := .running (Threaded.init {} w.handler {}) }

def throws {ε α : Type} : Except ε α → Bool
  | .ok _ => false
  | .error _ => true

-- Both joins, then report with the stats; max_occupancy is its last line.
def Process.printed (bytes : Nat) : Process (BookBuilder B) → Option (Report × Nat)
  | .running s =>
    if s.parser = .finished ∧ s.consumer = .exited then
      some (report reads s.builder bytes s.consumerFrames, s.maxOccupancy)
    else none
  | .terminated => none

end Process

-- A handler that only remembers its calls.
def record : Handler (List Event) := fun e seen => seen ++ [e]

theorem foldl_record (es seen : List Event) : es.foldl (fun s e => record e s) seen = seen ++ es := by
  induction es generalizing seen with
  | nil => simp
  | cons e rest ih => rw [List.foldl_cons, ih, record, List.append_assoc, List.singleton_append]

structure Shows {ζ : Type} (src : Source ζ) (seen : List Event) (bytes : Nat) (result : Except String Nat) : Prop where
  walk : ∀ {σ : Type} (h : Handler σ) (s : σ),
    src.walk h s = some { handler := seen.foldl (fun s e => h e s) s, bytes, result }
  frames : ∀ frames, result = .ok frames → frames = seen.length

theorem buffer_shows {ζ : Type} (data : List UInt8) :
    Shows (.buffer data : Source ζ) (events data) data.length (.ok (events data).length) := by
  refine ⟨fun h s => ?_, fun frames same => ?_⟩
  · rw [Source.walk, parseStream_events]
  · exact (Except.ok.inj same).symm

theorem gzip_shows {ζ σ : Type} {z : Zlib ζ} {path : String} {chunkSize : Nat} {file : File} {fuel : Nat}
    {h : Handler σ} {s : σ} {w : Walked σ} (walked : (Source.gzip z path chunkSize file fuel).walk h s = some w) :
    ∃ seen, Shows (.gzip z path chunkSize file fuel) seen w.bytes w.result := by
  cases begun : z.inflateInit2 with
  | none =>
    simp only [Source.walk, GzipSource.run, begun, Option.map_some, Option.some.injEq] at walked
    subst walked
    refine ⟨[], fun h s => ?_, fun frames same => by cases same⟩
    simp only [Source.walk, GzipSource.run, begun, Option.map_some, List.foldl_nil]
  | some zs =>
    have runs {σ : Type} (h : Handler σ) (s : σ) := (run_conclude path chunkSize file h s begun fuel).1
    rw [Source.walk, runs] at walked
    cases stops : handedLoop path chunkSize file z zs fuel with
    | none =>
      rw [stops] at walked
      cases walked
    | some stop =>
      rw [stops] at walked
      cases walked
      refine ⟨events stop.2.1.flatten, fun h s => ?_, fun frames same => ?_⟩
      · rw [Source.walk, runs, stops]
        simp only [Option.map_some, conclude, parseStream_events]
      · simp only [conclude, parseStream_events] at same
        split at same
        · cases same
        · split_ifs at same
          · cases same
          · cases same
          · exact (Except.ok.inj same).symm

theorem walk_shows {ζ σ : Type} {src : Source ζ} {h : Handler σ} {s : σ} {w : Walked σ}
    (walked : src.walk h s = some w) : ∃ seen, Shows src seen w.bytes w.result := by
  cases src with
  | buffer data =>
    cases walked
    refine ⟨events data, ?_⟩
    rw [parseStream_events]
    exact buffer_shows data
  | gzip z path chunkSize file fuel => exact gzip_shows walked

section Follows

variable {B : Type} {api : BookType B} {c : Capacity}

theorem parser_finishes {E σ : Type} {s s' : Threaded.State E σ} (taken : Threaded.parserStep c s = some s')
    (gone : s'.parser = .finished) : s.parser = .ready ∧ s.todo = [] := by
  cases pc : s.parser with
  | ready =>
    refine ⟨rfl, ?_⟩
    cases left : s.todo with
    | nil => rfl
    | cons env rest =>
      simp only [Threaded.parserStep, TwoThreads.parserStep, pc, left] at taken
      obtain ⟨mid, -, rfl⟩ := Option.map_eq_some_iff.mp taken
      cases gone
  | pushing =>
    simp only [Threaded.parserStep, TwoThreads.parserStep, pc] at taken
    split at taken
    · obtain ⟨mid, -, rfl⟩ := Option.map_eq_some_iff.mp taken
      cases gone
    · obtain ⟨queue, -, rfl⟩ := Threaded.onQueue_eq taken
      simp [pc] at gone
    · obtain ⟨queue, -, rfl⟩ := Threaded.onQueue_eq taken
      simp [pc] at gone
  | sizing =>
    simp only [Threaded.parserStep, TwoThreads.parserStep, pc] at taken
    split at taken
    · cases taken
      cases gone
    · obtain ⟨queue, -, rfl⟩ := Threaded.onQueue_eq taken
      simp [pc] at gone
  | finished =>
    simp only [Threaded.parserStep, TwoThreads.parserStep, pc] at taken
    cases taken

section Turn

variable {E σ : Type} {dispatch : E → σ → σ} {blank : E} {sent : List E} {start : σ} {s s' : Threaded.State E σ}
  {turn : TwoThreads.Turn} (live : Threaded.Live c dispatch blank sent start s)
  (taken : Threaded.step c dispatch s turn = some s')
include live taken

theorem builder_leaves (builder : turn = .builder) : s'.parser = s.parser := by
  subst builder
  exact (Threaded.builder_move (Threaded.reachable_inv live.reachable) (Threaded.reachable_queue live.reachable)
    live.returned.told taken).parser

theorem finished_stays (finished : s.parser = .finished) : s'.parser = .finished := by
  cases turn with
  | parser => simp [Threaded.step, TwoThreads.step, TwoThreads.parserStep, finished] at taken
  | builder => exact (builder_leaves live taken rfl).trans finished

theorem finishes_here (running : s.parser ≠ .finished) (finished : s'.parser = .finished) :
    turn = .parser ∧ s.parser = .ready ∧ s.todo = [] := by
  cases turn with
  | parser => exact ⟨rfl, parser_finishes taken finished⟩
  | builder => exact absurd ((builder_leaves live taken rfl).symm.trans finished) running

end Turn

variable (api c) in
theorem along_process (sent : List Envelope) (thrown : Bool) (schedule : Nat → TwoThreads.Turn) (n : Nat) :
    let threads := along (Threaded.step c (dispatchToBook api)) (Threaded.init {} sent {}) schedule n
    along (Process.step api c thrown) (.running (Threaded.init {} sent {})) schedule n =
      if thrown = true ∧ threads.parser = .finished then .terminated else .running threads := by
  induction n with
  | zero => simp [along, Threaded.init]
  | succ n ih =>
    have live := Threaded.along_live c (dispatchToBook api) {} sent {} schedule n
    simp only at ih ⊢
    rw [along, along, ih]
    generalize along (Threaded.step c (dispatchToBook api)) (Threaded.init {} sent {}) schedule n = s at live ⊢
    by_cases ended : thrown = true ∧ s.parser = .finished
    · have stays : ((Threaded.step c (dispatchToBook api) s (schedule n)).getD s).parser = .finished := by
        cases taken : Threaded.step c (dispatchToBook api) s (schedule n) with
        | none => exact ended.2
        | some s' => exact finished_stays live taken ended.2
      rw [if_pos ended, if_pos ⟨ended.1, stays⟩]
      rfl
    · rw [if_neg ended]
      by_cases throwing : thrown = true ∧ schedule n = .parser ∧ s.parser = .ready ∧ s.todo = []
      · obtain ⟨throws, turn, ready, empty⟩ := throwing
        have taken : Threaded.step c (dispatchToBook api) s .parser =
            some { s with queue := { s.queue with producerDone := true }, parser := .finished } := by
          simp [Threaded.step, TwoThreads.step, TwoThreads.parserStep, Threaded.channel, ready, empty]
        simp [Process.step, throws, turn, ready, empty, taken]
      · rw [Process.step, if_neg throwing]
        cases taken : Threaded.step c (dispatchToBook api) s (schedule n) with
        | none => simp [ended]
        | some s' =>
          have onward : ¬ (thrown = true ∧ s'.parser = .finished) := fun both =>
            throwing ⟨both.1, finishes_here live taken (fun before => ended ⟨both.1, before⟩) both.2⟩
          simp [onward]

end Follows

def Undamaged (seen : List Event) : Prop := ∀ type len, .other type len ∈ seen → wireSize type < 0

theorem foldl_queueProducer {B : Type} (api : BookType B) (seen : List Event) :
    (seen.map queueProducer).foldl (fun h env => dispatchToBook api env h) {} = build api (seen.map redispatch) := by
  rw [build, List.foldl_map, List.foldl_map]
  simp only [dispatchToBook_queueProducer]

theorem build_undamaged {B : Type} (api : BookType B) {seen : List Event} (undamaged : Undamaged seen) :
    build api (seen.map redispatch) = build api seen := by
  have alike (e : Event) (inside : e ∈ seen) (h : BookBuilder B) :
      handler api (redispatch e) h = handler api e h := by
    cases e with
    | other type len =>
      rw [redispatch_unknown (undamaged type len inside)]
      rfl
    | _ m => rfl
  rw [build, build, List.foldl_map]
  exact List.foldl_ext _ _ _ fun h e inside => alike e inside h

def EndsAs {ζ B : Type} (reads : BookReads B) (src : Source ζ) (bytes : Nat) (process : Process (BookBuilder B)) :
    Exit → Prop
  | .printed single => ∃ rep occupancy, process.printed reads bytes = some (rep, occupancy) ∧
      rep.bytes = single.bytes ∧ rep.frames = single.frames ∧
      ((∀ w, src.walk record [] = some w → Undamaged w.handler) → rep = single)
  | .failed _ => process = .terminated

/-- replay_threaded_main ends as replay_main does, in every schedule that leaves
neither of its threads out for good, for every source, book and queue size: it
prints the same bytes and frames and, if no frame is damaged, the same totals.
Only where replay_main reports an error of the gzip stream does it terminate instead. -/
theorem threaded_main_agrees {ζ B : Type} (reads : BookReads B) (api : BookType B) (src : Source ζ) (c : Capacity)
    (schedule : Nat → TwoThreads.Turn) (fair : Fair schedule) (exit : Exit)
    (ends : runSingle reads api src = some exit) :
    ∃ spawned, src.spawn = some spawned ∧ ∃ n, ∀ m, n ≤ m →
      EndsAs reads src spawned.bytes
        (along (Process.step api c (throws spawned.result)) spawned.handler schedule m) exit := by
  rw [runSingle] at ends
  obtain ⟨⟨single, bytes, result⟩, walked, rfl⟩ := Option.map_eq_some_iff.mp ends
  obtain ⟨seen, shows⟩ := walk_shows walked
  have same : single = build api seen :=
    congrArg Walked.handler (Option.some.inj (walked.symm.trans (shows.walk (handler api) {})))
  have spawned : src.spawn (B := B) =
      some ⟨.running (Threaded.init {} (seen.map queueProducer) {}), bytes, result⟩ := by
    rw [Source.spawn, shows.walk, Option.map_some, foldl_sent, List.nil_append]
  obtain ⟨n, gone⟩ := Threaded.fair_run_exits c (dispatchToBook api) {} (seen.map queueProducer) {} schedule fair
  have live := Threaded.along_live c (dispatchToBook api) {} (seen.map queueProducer) {} schedule n
  have inv := Threaded.reachable_inv live.reachable
  obtain ⟨finished, stuck⟩ := Threaded.exited_stuck live gone
  obtain ⟨-, all, -, built⟩ := Threaded.exited inv gone
  rw [foldl_queueProducer] at built
  refine ⟨_, spawned, n, fun m later => ?_⟩
  simp only
  rw [along_process, along_stuck later stuck]
  cases result with
  | error what => exact if_pos ⟨rfl, finished⟩
  | ok frames =>
    rw [if_neg (fun throwing => by cases throwing.1)]
    have counted : frames = seen.length := shows.frames frames rfl
    refine ⟨_, _, if_pos ⟨finished, gone⟩, rfl, ?_, fun undamaged => ?_⟩
    · rw [report, report, inv.frames, all, List.length_map, counted]
    · have clean := undamaged _ (shows.walk record [])
      rw [foldl_record, List.nil_append] at clean
      rw [built, build_undamaged api clean, inv.frames, all, List.length_map, counted, same]

-- A buffer of one system event, and a gzip file that inflateInit2 refuses.
theorem threaded_main_agrees_two_sources :
    let c : Capacity := ⟨1, by decide, by decide⟩
    let schedule := alternate TwoThreads.Turn.parser TwoThreads.Turn.builder
    let refusing : Zlib Unit := ⟨none, fun zs input _ => ⟨.streamError, [], input, zs⟩, fun _ => none⟩
    let day : Source Unit := .buffer [0, 1, 83]
    let torn : Source Unit := .gzip refusing "day.gz" 1 { unread := [] } 1
    (∃ spawned, day.spawn = some spawned ∧ ∃ n, ∀ m, n ≤ m →
      EndsAs orderBookReads day spawned.bytes
        (along (Process.step orderBook c (throws spawned.result)) spawned.handler schedule m)
        (.printed (replay orderBookReads orderBook [0, 1, 83]))) ∧
      ∃ spawned, torn.spawn = some spawned ∧ ∃ n, ∀ m, n ≤ m →
        EndsAs orderBookReads torn spawned.bytes
          (along (Process.step orderBook c (throws spawned.result)) spawned.handler schedule m)
          (.failed "inflateInit2 failed: day.gz") := by
  intro c schedule refusing day torn
  have fair : Fair schedule := fun turn => by
    cases turn with
    | parser => exact alternate_first _ _
    | builder => exact alternate_second _ _
  exact ⟨threaded_main_agrees orderBookReads orderBook day c schedule fair _ rfl,
    threaded_main_agrees orderBookReads orderBook torn c schedule fair _ rfl⟩

end ThreadedReport

end ItchLob.Pipeline
