import ItchLob.Net.HostileFeed
import ItchLob.Net.LiveReplay

set_option autoImplicit false

namespace ItchLob.Net

open Itch hiding decode
open Book FiniteMap Framing Pipeline

namespace LiveReplay

theorem fedFrames_framable (fed : List (Nat × PendingPacket)) : ∀ p ∈ fedFrames fed, Framable p := by
  intro p inside
  obtain ⟨q, -, framed⟩ := List.mem_flatMap.mp inside
  exact frames_framable q.2.payload p framed

def replayOf (fed : List (Nat × PendingPacket)) : Pipeline.Report :=
  replay orderBookReads orderBook (stream (fedFrames fed))

theorem replayOf_frames (fed : List (Nat × PendingPacket)) : (replayOf fed).frames = (fedFrames fed).length :=
  replay_frames (fedFrames_framable fed)

theorem replayOf_totals (fed : List (Nat × PendingPacket)) :
    (replayOf fed).totals = (feed Builder.handler {} (fedFrames fed)).totals :=
  replay_totals (fedFrames_framable fed)

structure Shows (taken : List Recv) (fed : List (Nat × PendingPacket)) (k : Nat) (rep : LiveReport) : Prop where
  frames : rep.frames = (replayOf (fed.take k)).frames % 2 ^ 64
  totals : rep.totals = (replayOf (fed.take k)).totals
  nextSeq : rep.nextSeq = (1 + rep.frames) % 2 ^ 64
  pending : rep.pending ≤ kMaxPendingPackets
  requests : rep.gapFillRequests ≤ kMaxGapFillAttempts * taken.length

theorem Shows.more {taken : List Recv} {fed : List (Nat × PendingPacket)} {k : Nat} {rep : LiveReport}
    (shows : Shows taken fed k rep) (within : k ≤ fed.length) (e : Recv) (later : List (Nat × PendingPacket)) :
    Shows (taken ++ [e]) (fed ++ later) k rep := by
  have same : (fed ++ later).take k = fed.take k := List.take_append_of_le_length within
  refine ⟨?_, ?_, shows.nextSeq, shows.pending, shows.requests.trans ?_⟩
  · rw [same, shows.frames]
  · rw [same, shows.totals]
  · rw [List.length_append]
    exact Nat.mul_le_mul_left _ (Nat.le_add_right _ _)

section Loop

variable {χ : Type} (ch : RequestChannel χ)

structure Enduring (session : List UInt8) (taken : List Recv) (s : Live χ) (fed : List (Nat × PendingPacket))
    (cuts : List Nat) : Prop where
  withstanding : Withstanding ch Builder.handler session {} taken (fedFrames fed).length s.endpoint fed
  frames : s.frames = (fedFrames fed).length % 2 ^ 64
  running : taken.dropLast.any (closes session) = false
  ordered : cuts.Pairwise (· ≤ ·)
  within : ∀ k ∈ cuts, k ≤ fed.length
  shown : List.Forall₂ (Shows taken fed) cuts s.reports

namespace Enduring

variable {ch} {session : List UInt8} {taken : List Recv} {s : Live χ} {fed : List (Nat × PendingPacket)}
  {cuts : List Nat}

theorem report (so : Enduring ch session taken s fed cuts) :
    Shows taken fed fed.length (LiveReplay.report s) := by
  have left := so.withstanding.withstood
  refine ⟨?_, ?_, ?_, left.capped, left.requests⟩
  · rw [List.take_length, replayOf_frames]
    exact so.frames
  · rw [List.take_length, replayOf_totals, ← left.handler]
    rfl
  · change s.endpoint.receiver.nextSeq = (1 + s.frames) % 2 ^ 64
    rw [left.nextSeq, so.frames, Nat.add_mod_mod]

theorem printed (so : Enduring ch session taken s fed cuts) :
    Enduring ch session taken { s with reports := s.reports ++ [LiveReplay.report s] } fed
      (cuts ++ [fed.length]) where
  withstanding := so.withstanding
  frames := so.frames
  running := so.running
  ordered := by
    refine List.pairwise_append.mpr ⟨so.ordered, List.pairwise_singleton _ _, fun k inside last whole => ?_⟩
    rw [List.mem_singleton.mp whole]
    exact so.within k inside
  within := by
    intro k inside
    rcases List.mem_append.mp inside with earlier | last
    · exact so.within k earlier
    · exact (List.mem_singleton.mp last).le
  shown := List.rel_append so.shown (.cons so.report .nil)

variable (reportEvery : Nat)

theorem turn (so : Enduring ch session taken s fed cuts) (running : s.endpoint.receiver.ended = false) (e : Recv) :
    ∃ fed' cuts', Enduring ch session (taken ++ [e]) (turn ch reportEvery s e) fed' cuts' := by
  obtain ⟨later, next⟩ := so.withstanding.poll e
  have counted := next.feeds.counted
  have polled : Enduring ch session (taken ++ [e])
      { s with
        endpoint := (s.endpoint.poll ch Builder.handler e).2
        frames := (s.frames + (s.endpoint.poll ch Builder.handler e).1) % 2 ^ 64 } (fed ++ later) cuts := by
    refine ⟨counted ▸ next, ?_, ?_, so.ordered, fun k inside => ?_, ?_⟩
    · rw [so.frames, Nat.mod_add_mod, counted]
    · rw [List.dropLast_concat, ← so.withstanding.ended, running]
    · rw [List.length_append]
      exact (so.within k inside).trans (Nat.le_add_right _ _)
    · obtain ⟨paired, each⟩ := List.forall₂_iff_zip.mp so.shown
      exact List.forall₂_iff_zip.mpr ⟨paired, fun zipped =>
        (each zipped).more (so.within _ (List.of_mem_zip zipped).1) e later⟩
  unfold LiveReplay.turn
  simp only
  split
  · exact ⟨_, _, polled.printed⟩
  · exact ⟨_, _, polled⟩

end Enduring

theorem loop_enduring (reportEvery : Nat) {session : List UInt8} {taken : List Recv} {s : Live χ}
    {fed : List (Nat × PendingPacket)} {cuts : List Nat} (so : Enduring ch session taken s fed cuts)
    (polls : List (Bool × Recv)) :
    ∃ more fed' cuts', more <+: polls.map Prod.snd ∧
      Enduring ch session (taken ++ more) (loop ch reportEvery s polls) fed' cuts' := by
  induction polls generalizing taken s fed cuts with
  | nil => exact ⟨[], fed, cuts, List.nil_prefix, by rwa [List.append_nil]⟩
  | cons poll rest ih =>
    rw [loop]
    split
    · exact ⟨[], fed, cuts, List.nil_prefix, by rwa [List.append_nil]⟩
    next goes =>
      rw [not_or, Bool.not_eq_true, Bool.not_eq_true] at goes
      obtain ⟨fed', cuts', next⟩ := so.turn reportEvery goes.2 poll.2
      obtain ⟨more, fed'', cuts'', before, last⟩ := ih next
      refine ⟨poll.2 :: more, fed'', cuts'', ?_, ?_⟩
      · exact (List.prefix_cons_inj _).mpr before
      · rwa [List.append_assoc] at last

end Loop

/-- Whatever the network sends until the session ends, live_replay's reports are those of
file replays: each shows a first part of one list of packets fed in step, the last all. -/
theorem hostile_reports_are_replays {χ : Type} (ch : RequestChannel χ) (reportEvery : Nat) (session : List UInt8)
    (x : χ) (polls : List (Bool × Recv)) :
    ∃ taken fed cuts, taken <+: polls.map Prod.snd ∧ taken.dropLast.any (closes session) = false ∧
      InStep 1 fed ∧ (∀ q ∈ fed, Arrived ch session taken q.1 q.2) ∧
      (cuts ++ [fed.length]).Pairwise (· ≤ ·) ∧
      List.Forall₂ (Shows taken fed) (cuts ++ [fed.length]) (run ch reportEvery session x polls).reports := by
  have start : Enduring ch session [] { endpoint := ⟨{ session }, x, {}⟩ } [] [] :=
    ⟨.start, rfl, rfl, .nil, fun k inside => (by cases inside), .nil⟩
  obtain ⟨taken, fed, cuts, before, so⟩ := loop_enduring ch reportEvery start polls
  have last := so.printed
  exact ⟨taken, fed, cuts, before, so.running, so.withstanding.feeds.inStep, so.withstanding.genuine, last.ordered,
    last.shown⟩

end LiveReplay

end ItchLob.Net
