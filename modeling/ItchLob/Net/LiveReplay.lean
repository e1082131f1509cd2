import ItchLob.Itch.Encode
import ItchLob.Net.Delivery
import ItchLob.Pipeline.ReplayReport

set_option autoImplicit false

namespace ItchLob.Net

open Itch hiding decode
open Book FiniteMap Framing Pipeline

namespace LiveReplay

structure Builder where
  books : Map UInt16 OrderBook := ∅
  counts : UInt8 → UInt64 := fun _ => 0
  unknownRefs : UInt64 := 0

namespace Builder

def bump (h : Builder) (t : UInt8) : Builder :=
  { h with counts := fun c => if c = t then h.counts c + 1 else h.counts c }

-- operator[] makes an empty book for a locate it has not seen; the call writes
-- through the reference it returns.
def route (h : Builder) (t : UInt8) (locate : UInt16) (apply : OrderBook → Bool × OrderBook) : Builder :=
  let h := h.bump t
  let applied := apply ((h.books.lookup locate).getD {})
  { h with
    books := h.books.insert locate applied.2
    unknownRefs := if applied.1 then h.unknownRefs else h.unknownRefs + 1 }

def onAdd (h : Builder) (m : AddOrder) : Builder :=
  h.route 'A'.toUInt8 m.hdr.locate fun b => b.add m.ref m.side m.shares m.price

def onExecute (h : Builder) (m : OrderExecuted) : Builder :=
  h.route 'E'.toUInt8 m.hdr.locate fun b => b.execute m.ref m.shares

def onExecutePrice (h : Builder) (m : OrderExecutedPrice) : Builder :=
  h.route 'C'.toUInt8 m.hdr.locate fun b => b.execute m.ref m.shares

def onCancel (h : Builder) (m : OrderCancel) : Builder :=
  h.route 'X'.toUInt8 m.hdr.locate fun b => b.cancel m.ref m.canceled

def onDelete (h : Builder) (m : OrderDelete) : Builder :=
  h.route 'D'.toUInt8 m.hdr.locate fun b => b.remove m.ref

def onReplace (h : Builder) (m : OrderReplace) : Builder :=
  h.route 'U'.toUInt8 m.hdr.locate fun b => b.replace m.origRef m.newRef m.shares m.price

def onOther (h : Builder) (type : UInt8) (_len : Nat) : Builder := h.bump type

def handler : Handler Builder
  | .add m, h => h.onAdd m
  | .execute m, h => h.onExecute m
  | .executePrice m, h => h.onExecutePrice m
  | .cancel m, h => h.onCancel m
  | .delete m, h => h.onDelete m
  | .replace m, h => h.onReplace m
  | .other type len, h => h.onOther type len

-- The loop over the unordered_map; its order is the map's own.
def totals (h : Builder) : Totals :=
  let sums := h.books.entries.foldl (fun sums e => addBook orderBookReads e.2 sums) (0, 0, 0)
  { books := size h.books
    openOrders := sums.1
    bidLevels := sums.2.1
    askLevels := sums.2.2
    unknownRefs := h.unknownRefs
    byType := framesByType h.counts }

end Builder

structure LiveReport where
  frames : Nat
  totals : Totals
  nextSeq : Nat
  pending : Nat
  gapFillRequests : Nat
  ended : Bool
  deriving DecidableEq, Repr

structure Live (χ : Type) where
  endpoint : Endpoint χ Builder
  frames : Nat := 0
  reports : List LiveReport := []

section Loop

variable {χ : Type}

def report (s : Live χ) : LiveReport :=
  { frames := s.frames
    totals := s.endpoint.handler.totals
    nextSeq := s.endpoint.receiver.nextSeq
    pending := s.endpoint.receiver.pendingCount
    gapFillRequests := s.endpoint.receiver.requestsSent
    ended := s.endpoint.receiver.ended }

variable (ch : RequestChannel χ) (reportEvery : Nat)

def turn (s : Live χ) (e : Recv) : Live χ :=
  let polled := s.endpoint.poll ch Builder.handler e
  let s := { s with endpoint := polled.2, frames := (s.frames + polled.1) % 2 ^ 64 }
  if 0 < reportEvery ∧ 0 < s.frames ∧ s.frames % reportEvery = 0 then
    { s with reports := s.reports ++ [report s] }
  else s

/-- Each turn finds g_stop set or not, and polls if it is not. The list's end is
a Ctrl-C. -/
def loop : Live χ → List (Bool × Recv) → Live χ
  | s, [] => s
  | s, (stop, e) :: rest =>
    if stop ∨ s.endpoint.receiver.ended then s else loop (turn ch reportEvery s e) rest

def run (session : List UInt8) (x : χ) (polls : List (Bool × Recv)) : Live χ :=
  let s := loop ch reportEvery { endpoint := ⟨{ session }, x, {}⟩ } polls
  { s with reports := s.reports ++ [report s] }

end Loop

structure Agrees (live : Builder) (file : BookBuilder OrderBook) : Prop where
  counts : live.counts = file.counts
  unknownRefs : live.unknownRefs = file.unknownRefs
  books : ∀ locate, live.books.lookup locate = file.books.find locate

variable {live : Builder} {file : BookBuilder OrderBook}

theorem handler_agrees (agrees : Agrees live file) (e : Itch.Event) :
    Agrees (Builder.handler e live) (BookBuilder.handler orderBook e file) := by
  cases asks : BookBuilder.request e with
  | none =>
    have idle : Builder.handler e live = live.bump (BookBuilder.letter e) := by
      cases e with
      | other type len => rfl
      | _ m => cases asks
    rw [idle, BookBuilder.handler_unasked _ asks]
    exact ⟨by simp only [Builder.bump, BookBuilder.bump, agrees.counts], agrees.unknownRefs, agrees.books⟩
  | some r =>
    have routed : Builder.handler e live =
        live.route (BookBuilder.letter e) r.locate fun b => orderBook.call b r.call := by
      cases e with
      | other type len => cases asks
      | _ m =>
        simp only [BookBuilder.request, Option.some.injEq] at asks
        subst asks
        rfl
    have slot : (live.books.lookup r.locate).getD {} = (file.books.find r.locate).getD (orderBook.make r.priceHint) := by
      rw [agrees.books]
      rfl
    rw [routed, BookBuilder.handler_request _ asks, BookBuilder.route_eq]
    refine ⟨?_, ?_, fun locate => ?_⟩
    · simp only [Builder.route, Builder.bump, BookBuilder.bump, agrees.counts]
    · simp only [Builder.route, Builder.bump, slot, agrees.unknownRefs]
    · simp only [Builder.route, Builder.bump, slot]
      rw [lookup_insert_eq, BookTable.find_placed, agrees.books]
      simp only [eq_comm]

theorem feed_agrees (frames : List (List UInt8)) :
    Agrees (feed Builder.handler {} frames) (BookBuilder.build orderBook (frames.map event)) := by
  induction frames using List.reverseRecOn with
  | nil => exact ⟨rfl, rfl, fun _ => rfl⟩
  | append_singleton seen p ih =>
    rw [feed_append, List.map_append, List.map_singleton, BookBuilder.build_append]
    exact handler_agrees ih (event p)

theorem Agrees.totals (agrees : Agrees live file) (small : file.books.slots.length ≤ 65536) :
    live.totals = Pipeline.totals orderBookReads file := by
  let listed := live.books.entries.map fun e => (e.1, row orderBookReads e.2)
  have places : (listed.map Prod.fst).Nodup := by
    rw [List.map_map]
    exact live.books.keys_nodup
  have same (locate : UInt16) (r : Nat × Nat × Nat) :
      (locate, r) ∈ listed ↔ (file.books.find locate).map (row orderBookReads) = some r := by
    rw [← agrees.books, List.mem_map, Option.map_eq_some_iff]
    constructor
    · rintro ⟨⟨place, b⟩, inside, shown⟩
      obtain ⟨rfl, rfl⟩ := Prod.mk.inj shown
      exact ⟨b, lookup_iff_entry.mpr inside, rfl⟩
    · rintro ⟨b, found, rfl⟩
      exact ⟨⟨locate, b⟩, lookup_iff_entry.mp found, rfl⟩
  have folded : live.totals = Totals.ofRows listed live.unknownRefs live.counts := by
    have rows : listed.map Prod.snd = (live.books.entries.map Sigma.snd).map (row orderBookReads) := by
      rw [List.map_map, List.map_map]
      rfl
    have sums : live.books.entries.foldl (fun sums e => addBook orderBookReads e.2 sums) (0, 0, 0) =
        (listed.map Prod.snd).sum := by
      have added := foldl_addBook orderBookReads (live.books.entries.map Sigma.snd) (0, 0, 0)
      rw [List.foldl_map] at added
      rw [added, rows]
      exact zero_add _
    rw [Builder.totals, sums, Totals.ofRows, List.length_map, size]
  rw [folded, totals_rows, agrees.unknownRefs, agrees.counts]
  exact Totals.ofRows_perm (rows_perm small places.of_map same).symm _ _

section File

variable {payloads : List (List UInt8)} (framable : ∀ p ∈ payloads, Framable p)

include framable

theorem replay_frames : (replay orderBookReads orderBook (stream payloads)).frames = payloads.length := by
  rw [replay, Pipeline.report, BookBuilder.parseStream_build, events, frames_stream payloads framable,
    List.length_map]

theorem replay_totals :
    (replay orderBookReads orderBook (stream payloads)).totals = (feed Builder.handler {} payloads).totals := by
  rw [replay, Pipeline.report, BookBuilder.parseStream_build, events, frames_stream payloads framable]
  exact ((feed_agrees payloads).totals (BookBuilder.build_small _ _)).symm

end File

section Frames

variable {χ σ : Type} {h : Handler σ} {m : Nat → List UInt8} {start : σ} {ch : RequestChannel χ}

theorem drainLoop_frames (framable : ∀ i, 1 ≤ i → Framable (m i)) (fuel : Nat) {r : Receiver} {s : σ}
    (frames : Nat) (delivers : Delivers h m start r s) :
    (r.drainLoop h fuel s frames).2.2 + r.nextSeq = frames + (r.drainLoop h fuel s frames).1.nextSeq := by
  induction fuel generalizing r s frames with
  | zero => rfl
  | succ fuel ih =>
    simp only [Receiver.drainLoop]
    cases front : first r.pending with
    | none => rfl
    | some entry =>
      simp only
      split
      next here =>
        have found := (first_eq_some.mp front).1
        rw [here] at found ⊢
        obtain ⟨j, bound, parsed⟩ := (delivers.pending _ _ found).parsed framable delivers.positive h s
        have next : (r.drainOne r.nextSeq entry.2 j).nextSeq = r.nextSeq + j := Nat.mod_eq_of_lt bound
        have after := (delivers.drainOne framable found).1
        have counted := ih (frames + (parseStream h entry.2.payload s).2) after
        rw [parsed] at counted ⊢
        rw [next] at counted
        simp only at counted ⊢
        omega
      next => rfl

theorem poll_frames {p : Endpoint χ σ} (framable : ∀ i, 1 ≤ i → Framable (m i))
    (replies : ch.Genuine (Carries m) p.receiver.session)
    (delivers : Delivers h m start p.receiver p.handler) {e : Recv}
    (genuine : Genuine (Carries m) p.receiver.session e) :
    (p.poll ch h e).1 + p.receiver.nextSeq = (p.poll ch h e).2.receiver.nextSeq := by
  cases fresh : freshPacket p.receiver e with
  | none =>
    obtain ⟨ended, same⟩ := poll_ignores h fresh p.handler
    have polled : p.poll ch h e = (0, ⟨{ p.receiver with ended }, p.requests, p.handler⟩) := same ch p.requests
    rw [polled]
    exact Nat.zero_add _
  | some entry =>
    obtain ⟨above, carries⟩ := freshPacket_genuine genuine fresh
    have filled : Filled (Carries m) p.receiver
        (p.beforeDrain ch entry.1 entry.2.count entry.2.payload).1 :=
      beforeDrain_filled above carries replies
    rw [poll_fresh ch h fresh, Endpoint.accept, if_neg (Nat.not_lt.mpr above)]
    have counted := drainLoop_frames framable
      (size (p.beforeDrain ch entry.1 entry.2.count entry.2.payload).1.pending) 0 (delivers.filled filled)
    rw [filled.nextSeq, Nat.zero_add] at counted
    exact counted

end Frames

section Reports

variable {χ : Type} {ch : RequestChannel χ} {m : Nat → List UInt8} {reportEvery : Nat}

def Replayed (m : Nat → List UInt8) (rep : LiveReport) : Prop :=
  let file := replay orderBookReads orderBook (stream (messages m 1 rep.frames))
  rep.nextSeq = rep.frames + 1 ∧ file.frames = rep.frames ∧ file.totals = rep.totals

structure Following (ch : RequestChannel χ) (m : Nat → List UInt8) (s : Live χ) : Prop where
  delivers : Delivers Builder.handler m {} s.endpoint.receiver s.endpoint.handler
  replies : ch.Genuine (Carries m) s.endpoint.receiver.session
  frames : s.frames + 1 = s.endpoint.receiver.nextSeq
  reports : ∀ rep ∈ s.reports, Replayed m rep ∧ rep.frames ≤ s.frames
  ordered : (s.reports.map LiveReport.frames).Pairwise (· ≤ ·)

variable {s : Live χ}

theorem Following.report (following : Following ch m s) (framable : ∀ i, 1 ≤ i → Framable (m i)) :
    Replayed m (report s) := by
  have framed := messages_framable framable (Nat.le_refl 1) s.frames
  have handed := following.delivers.handed
  rw [← following.frames, Nat.add_sub_cancel] at handed
  refine ⟨following.frames.symm, ?_, ?_⟩
  · exact (replay_frames framed).trans (messages_length ..)
  · rw [LiveReplay.report, handed]
    exact replay_totals framed

theorem Following.printed (following : Following ch m s) (framable : ∀ i, 1 ≤ i → Framable (m i)) :
    Following ch m { s with reports := s.reports ++ [LiveReplay.report s] } := by
  refine ⟨following.delivers, following.replies, following.frames, fun rep inside => ?_, ?_⟩
  · rcases List.mem_append.mp inside with earlier | last
    · exact following.reports rep earlier
    · rw [List.mem_singleton.mp last]
      exact ⟨following.report framable, Nat.le_refl _⟩
  · rw [List.map_append, List.pairwise_append]
    refine ⟨following.ordered, List.pairwise_singleton _ _, fun a inside b last => ?_⟩
    obtain ⟨rep, member, rfl⟩ := List.mem_map.mp inside
    rw [List.map_singleton, List.mem_singleton] at last
    rw [last]
    exact (following.reports rep member).2

variable (reportEvery) in
theorem Following.turn (following : Following ch m s) (framable : ∀ i, 1 ≤ i → Framable (m i)) {e : Recv}
    (genuine : Genuine (Carries m) s.endpoint.receiver.session e) :
    Following ch m (turn ch reportEvery s e) ∧
      (turn ch reportEvery s e).endpoint.receiver.session = s.endpoint.receiver.session := by
  have session : (s.endpoint.poll ch Builder.handler e).2.receiver.session = s.endpoint.receiver.session :=
    poll_session s.endpoint e
  have counted := poll_frames framable following.replies following.delivers genuine
  have delivers := (poll_delivers framable following.replies following.delivers genuine).1
  have before := following.frames
  have fits := delivers.fits
  have total : (s.frames + (s.endpoint.poll ch Builder.handler e).1) % 2 ^ 64 =
      s.frames + (s.endpoint.poll ch Builder.handler e).1 := Nat.mod_eq_of_lt (by omega)
  have polled : Following ch m
      { s with
        endpoint := (s.endpoint.poll ch Builder.handler e).2
        frames := (s.frames + (s.endpoint.poll ch Builder.handler e).1) % 2 ^ 64 } := by
    refine ⟨delivers, session.symm ▸ following.replies, ?_, fun rep inside => ?_, following.ordered⟩
    · change _ % 2 ^ 64 + 1 = (s.endpoint.poll ch Builder.handler e).2.receiver.nextSeq
      omega
    · obtain ⟨replayed, le⟩ := following.reports rep inside
      refine ⟨replayed, ?_⟩
      change rep.frames ≤ _ % 2 ^ 64
      omega
  unfold LiveReplay.turn
  simp only
  split
  · exact ⟨polled.printed framable, session⟩
  · exact ⟨polled, session⟩

variable (reportEvery) in
theorem loop_following (framable : ∀ i, 1 ≤ i → Framable (m i)) (polls : List (Bool × Recv))
    (following : Following ch m s)
    (genuine : ∀ e ∈ polls, Genuine (Carries m) s.endpoint.receiver.session e.2) :
    Following ch m (loop ch reportEvery s polls) := by
  induction polls generalizing s with
  | nil => exact following
  | cons poll rest ih =>
    rw [loop]
    split
    · exact following
    · obtain ⟨next, session⟩ := following.turn reportEvery framable (genuine poll (by simp))
      exact ih next fun e inside => session.symm ▸ genuine e (by simp [inside])

end Reports

/-- A live session is a file replay in instalments: whatever is lost, reordered
or repeated on the wire, every report that is printed shows the totals that a
replay of the session's first messages ends with, later ones of more of them. -/
theorem live_reports_are_replays {χ : Type} (ch : RequestChannel χ) (m : Nat → List UInt8)
    (framable : ∀ i, 1 ≤ i → Framable (m i)) (reportEvery : Nat) (session : List UInt8) (x : χ)
    (replies : ch.Genuine (Carries m) session) (polls : List (Bool × Recv))
    (genuine : ∀ e ∈ polls, Genuine (Carries m) session e.2) :
    let printed := (run ch reportEvery session x polls).reports
    (printed.map LiveReport.frames).Pairwise (· ≤ ·) ∧
      ∀ rep ∈ printed, rep.nextSeq = rep.frames + 1 ∧
        let file := replay orderBookReads orderBook (stream (messages m 1 rep.frames))
        file.frames = rep.frames ∧ file.totals = rep.totals := by
  intro printed
  let start : Live χ := { endpoint := ⟨{ session }, x, {}⟩ }
  have initial : Following ch m start := by
    refine ⟨⟨Nat.le_refl 1, show 1 < 2 ^ 64 by decide, Nat.zero_le _, fun k p found => ?_, rfl⟩, replies, rfl,
      fun rep inside => ?_, .nil⟩
    · cases found
    · simp [start] at inside
  have last := (loop_following reportEvery framable polls initial genuine).printed framable
  exact ⟨last.ordered, fun rep inside => (last.reports rep inside).1⟩

-- Two adds of which the second comes first and the first twice: nothing to report, then both, and again.
theorem live_reports_are_replays_reordered :
    let session : List UInt8 := List.replicate 10 32
    let silent : RequestChannel Unit := ⟨fun _ _ => [], fun x _ _ => x⟩
    let m : Nat → List UInt8 := fun i => Encode.addOrder 7 0 (UInt64.ofNat i) .buy 100 [65] 1500000
    let polls := [2, 1, 1].map fun seq => (false, datagram session seq 1 (frame (m seq)))
    let printed := (run silent 1 session () polls).reports
    printed.map LiveReport.frames = [2, 2, 2] ∧ printed.map (fun rep => rep.totals.openOrders) = [2, 2, 2] ∧
      ∀ rep ∈ printed, rep.nextSeq = rep.frames + 1 ∧
        let file := replay orderBookReads orderBook (stream (messages m 1 rep.frames))
        file.frames = rep.frames ∧ file.totals = rep.totals := by
  intro session silent m polls printed
  have framable (i : Nat) (_ : 1 ≤ i) : Framable (m i) :=
    (Encode.Message.addOrder 7 0 (UInt64.ofNat i) .buy 100 [65] 1500000).encode_framable
  have genuine (seq : Nat) (fits : seq + 1 < 2 ^ 64) :
      Genuine (Carries m) session (datagram session seq 1 (frame (m seq))) :=
    genuine_datagram rfl (by omega) fun _ => ⟨1, fits, by simp [messages]⟩
  have law := live_reports_are_replays silent m framable 1 session () (fun _ _ _ inside => by cases inside) polls
    fun e inside => by
      obtain ⟨seq, member, rfl⟩ := List.mem_map.mp inside
      refine genuine seq ?_
      simp only [List.mem_cons, List.not_mem_nil, or_false] at member
      omega
  exact ⟨by decide +kernel, by decide +kernel, law.2⟩

end LiveReplay

end ItchLob.Net
