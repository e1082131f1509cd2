import ItchLob.Net.GapFill

set_option autoImplicit false

namespace ItchLob.Net

open Itch hiding decode
open FiniteMap MoldUdp64 Framing Sender

/-- After the first i packets: a loss joins at the end, and each packet that
arrives buys the recovery of the oldest one. -/
def backlog (shouldDrop : Nat → Bool) : Nat → List Nat
  | 0 => []
  | i + 1 => if shouldDrop (i + 1) then backlog shouldDrop i ++ [i + 1] else (backlog shouldDrop i).tail

def waiting (shouldDrop : Nat → Bool) (i : Nat) : Nat :=
  match backlog shouldDrop i with
  | [] => 0
  | oldest :: later => i - oldest - later.length

-- No arrival finds the reorder buffer so full that it leaves no room for a reply.
def Roomy (shouldDrop : Nat → Bool) (n : Nat) : Prop :=
  ∀ i, i < n → shouldDrop (i + 1) = false → waiting shouldDrop i + 1 < kMaxPendingPackets

def Recoverable (shouldDrop : Nat → Bool) (n : Nat) : Prop :=
  backlog shouldDrop n = [] ∧ Roomy shouldDrop n

instance (shouldDrop : Nat → Bool) (n : Nat) : Decidable (Recoverable shouldDrop n) :=
  inferInstanceAs (Decidable (_ ∧ ∀ i, i < n → _))

section Backlog

variable {shouldDrop : Nat → Bool} {i : Nat}

theorem backlog_bounds (shouldDrop : Nat → Bool) (i : Nat) : ∀ x ∈ backlog shouldDrop i, 1 ≤ x ∧ x ≤ i := by
  induction i with
  | zero => exact fun _ inside => nomatch inside
  | succ i ih =>
    intro x inside
    rw [backlog] at inside
    split at inside
    · rcases List.mem_append.mp inside with old | new
      · have := ih x old
        omega
      · have := List.mem_singleton.mp new
        omega
    · have := ih x (List.mem_of_mem_tail inside)
      omega

theorem backlog_sorted (shouldDrop : Nat → Bool) (i : Nat) :
    (backlog shouldDrop i).Pairwise (· < ·) := by
  induction i with
  | zero => exact .nil
  | succ i ih =>
    rw [backlog]
    split
    · refine List.pairwise_append.mpr ⟨ih, List.pairwise_singleton _ _, fun x old y new => ?_⟩
      have := (backlog_bounds shouldDrop i x old).2
      have := List.mem_singleton.mp new
      omega
    · exact ih.tail

theorem backlog_headD_le (shouldDrop : Nat → Bool) (i : Nat) :
    1 ≤ (backlog shouldDrop i).headD (i + 1) ∧ (backlog shouldDrop i).headD (i + 1) ≤ i + 1 := by
  have bounds := backlog_bounds shouldDrop i
  cases open_ : backlog shouldDrop i with
  | nil => simp
  | cons x rest =>
    have := bounds x (by simp [open_])
    simp only [List.headD_cons]
    omega

-- Once the oldest loss is in hand, the next number that is missing is the
-- second oldest, or the one after the packet that just arrived.
theorem headD_tail {losses : List Nat} (sorted : losses.Pairwise (· < ·)) (bounds : ∀ x ∈ losses, x ≤ i)
    {next : Nat} (low : losses.headD (i + 1) ≤ next)
    (covered : ∀ k, losses.headD (i + 1) < k → k < next → k ≤ i + 1 ∧ k ∉ losses)
    (missing : next ≠ losses.headD (i + 1) ∧
      ¬ (losses.headD (i + 1) < next ∧ next ≤ i + 1 ∧ next ∉ losses)) :
    next = losses.tail.headD (i + 2) := by
  cases losses with
  | nil =>
    simp only [List.headD_nil, List.tail_nil, List.not_mem_nil, not_false_eq_true, and_true] at *
    by_contra apart
    have := covered (i + 2) (by omega) (by omega)
    omega
  | cons x rest =>
    simp only [List.headD_cons, List.tail_cons, List.mem_cons, not_or] at *
    obtain ⟨before, sorted⟩ := List.pairwise_cons.mp sorted
    cases rest with
    | nil =>
      simp only [List.headD_nil, List.not_mem_nil, not_false_eq_true, and_true] at *
      have top := bounds x (.inl rfl)
      by_contra apart
      have := covered (i + 2) (by omega) (by omega)
      omega
    | cons y later =>
      have after := before y (by simp)
      have top := bounds y (.inr (by simp))
      simp only [List.headD_cons]
      -- The second oldest loss is not covered, and nothing before it is missing.
      have le : next ≤ y := by
        by_contra beyond
        exact (covered y after (by omega)).2.2 (by simp)
      have inside : next ∈ y :: later := by
        by_contra outside
        exact missing.2 ⟨by omega, by omega, by omega, outside⟩
      rcases List.mem_cons.mp inside with same | behind
      · exact same
      · have := (List.pairwise_cons.mp sorted).1 next behind
        omega

end Backlog

section Session

variable {σ : Type} {h : Handler σ} {s : Sender} {payloads : List (List UInt8)} {shouldDrop : Nat → Bool} {i : Nat}

/-- The receiver after the first i packets, some of them lost: next_seq is the
oldest open loss, the buffer holds what arrived behind it, and what is left
of old replies climbs. -/
structure Recovering (s : Sender) (payloads : List (List UInt8)) (shouldDrop : Nat → Bool) (i : Nat)
    (p : Endpoint (List (Fin s.messages.length)) σ) : Prop where
  session : p.receiver.session = s.session
  nextSeq : p.receiver.nextSeq = (backlog shouldDrop i).headD (i + 1)
  keys : ∀ k, p.receiver.pending.lookup k ≠ none ↔
    p.receiver.nextSeq < k ∧ k ≤ i ∧ k ∉ backlog shouldDrop i
  balance : size p.receiver.pending + (backlog shouldDrop i).length + p.receiver.nextSeq = i + 1
  buffers : Buffers (Single (message payloads)) p.receiver
  climbs : Climbs p.receiver.nextSeq (p.requests.map seqOf)

variable {p : Endpoint (List (Fin s.messages.length)) σ}

theorem Recovering.above (recovering : Recovering s payloads shouldDrop i p) : Above p.receiver := by
  intro k node found
  exact ((recovering.keys k).mp (by simp [found])).1

theorem Recovering.size_pending (recovering : Recovering s payloads shouldDrop i p) :
    size p.receiver.pending = waiting shouldDrop i := by
  have balance := recovering.balance
  have next := recovering.nextSeq
  unfold waiting
  cases losses : backlog shouldDrop i with
  | nil =>
    simp only [losses, List.headD_nil, List.length_nil] at balance next
    simp only
    omega
  | cons x rest =>
    simp only [losses, List.headD_cons, List.length_cons] at balance next
    simp only
    omega

theorem Recovering.lost (recovering : Recovering s payloads shouldDrop i p) (lost : shouldDrop (i + 1) = true) :
    Recovering s payloads shouldDrop (i + 1) p := by
  obtain ⟨session, nextSeq, keys, balance, buffers, climbs⟩ := recovering
  have grown : backlog shouldDrop (i + 1) = backlog shouldDrop i ++ [i + 1] := by rw [backlog, if_pos lost]
  refine ⟨session, ?_, fun k => ?_, ?_, buffers, climbs⟩
  · rw [nextSeq, grown]
    cases backlog shouldDrop i <;> rfl
  · rw [keys, grown, List.mem_append, List.mem_singleton]
    constructor
    · rintro ⟨low, high, outside⟩
      exact ⟨low, by omega, by rintro (inside | rfl) <;> [exact outside inside; omega]⟩
    · rintro ⟨low, high, outside⟩
      rw [not_or] at outside
      exact ⟨low, by omega, outside.1⟩
  · rw [grown, List.length_append, List.length_singleton]
    omega

structure Ready (s : Sender) (shouldDrop : Nat → Bool) (i : Nat) (r : Receiver)
    (unread : List (Fin s.messages.length)) : Prop where
  nextSeq : r.nextSeq = (backlog shouldDrop i).headD (i + 1)
  keys : ∀ k, r.pending.lookup k ≠ none ↔
    k = r.nextSeq ∨ (r.nextSeq < k ∧ k ≤ i + 1 ∧ k ∉ backlog shouldDrop i)
  balance : size r.pending + (backlog shouldDrop i).tail.length + r.nextSeq = i + 2
  climbs : Climbs (r.nextSeq + 1) (unread.map seqOf)

theorem Recovering.absent (recovering : Recovering s payloads shouldDrop i p) :
    p.receiver.pending.lookup (i + 1) = none := by
  by_contra there
  have := ((recovering.keys _).mp there).2.1
  omega

def buffered (payloads : List (List UInt8)) (i : Nat) (r : Receiver) : Receiver :=
  { r with pending := r.pending.insert (i + 1) (packetOf payloads (i + 1)) }

theorem Recovering.size_buffered (recovering : Recovering s payloads shouldDrop i p) :
    size (buffered payloads i p.receiver).pending = waiting shouldDrop i + 1 := by
  rw [← recovering.size_pending]
  exact size_insert_fresh _ recovering.absent

theorem Recovering.found_buffered (recovering : Recovering s payloads shouldDrop i p) (k : Nat) :
    (buffered payloads i p.receiver).pending.lookup k ≠ none ↔
      k = i + 1 ∨ (p.receiver.nextSeq < k ∧ k ≤ i ∧ k ∉ backlog shouldDrop i) := by
  rw [← recovering.keys]
  exact found_insert _ _ _ _

theorem Recovering.ready_caught_up (recovering : Recovering s payloads shouldDrop i p)
    (caughtUp : backlog shouldDrop i = []) :
    let ready := (buffered payloads i p.receiver).resolveGaps s.requestChannel p.requests
    Ready s shouldDrop i ready.1 ready.2 := by
  intro ready
  have size := recovering.size_buffered
  have found := recovering.found_buffered
  have here : p.receiver.nextSeq = i + 1 := by rw [recovering.nextSeq, caughtUp, List.headD_nil]
  have closed : ready = (buffered payloads i p.receiver, p.requests) := by
    refine resolveLoop_closed _ _ _ (fun k node there => ?_) ((found _).mpr (.inl here))
    have := (found k).mp (by simp [there])
    change p.receiver.nextSeq ≤ k
    omega
  have none : waiting shouldDrop i = 0 := by rw [waiting, caughtUp]
  rw [closed]
  refine ⟨?_, fun k => ?_, ?_, recovering.climbs.mono (Nat.le_succ _)⟩
  · rw [caughtUp]
    exact here
  · rw [found, caughtUp]
    simp only [List.not_mem_nil, not_false_eq_true, and_true]
    change _ ↔ k = p.receiver.nextSeq ∨ (p.receiver.nextSeq < k ∧ k ≤ i + 1)
    omega
  · change FiniteMap.size (buffered payloads i p.receiver).pending + _ + p.receiver.nextSeq = i + 2
    rw [caughtUp, List.tail_nil, List.length_nil]
    omega

theorem Recovering.ready_behind (recovering : Recovering s payloads shouldDrop i p) (loaded : Loaded s payloads)
    (sent : i < payloads.length) (room : waiting shouldDrop i + 1 < kMaxPendingPackets) {x : Nat} {rest : List Nat}
    (behind : backlog shouldDrop i = x :: rest) :
    let ready := (buffered payloads i p.receiver).resolveGaps s.requestChannel p.requests
    Ready s shouldDrop i ready.1 ready.2 := by
  intro ready
  have size := recovering.size_buffered
  have found := recovering.found_buffered
  have bounds := backlog_bounds shouldDrop i
  have oldest := bounds x (by simp [behind])
  have here : p.receiver.nextSeq = x := by rw [recovering.nextSeq, behind, List.headD_cons]
  have balance := recovering.balance
  have waits := recovering.size_pending
  have ahead : Above (buffered payloads i p.receiver) := by
    intro k node there
    have := (found k).mp (by simp [there])
    change p.receiver.nextSeq < k
    omega
  have last : (buffered payloads i p.receiver).pending.lookup (i + 1) = some (packetOf payloads (i + 1)) :=
    AList.lookup_insert _
  obtain ⟨front, node, least⟩ := first_of_lookup last
  have known : front ≤ i + 1 := (first_eq_some.mp least).2 _ _ last
  obtain ⟨unread, further, recovered⟩ := resolveGaps_recovers (r := buffered payloads i p.receiver) loaded
    recovering.session (show 1 ≤ p.receiver.nextSeq by omega) ahead (by omega) least (by omega) recovering.climbs
  rw [show ready = _ from recovered]
  refine ⟨?_, fun k => ?_, ?_, further⟩
  · rw [behind]
    exact here
  · change ((buffered payloads i p.receiver).pending.insert p.receiver.nextSeq _).lookup k ≠ none ↔
      k = p.receiver.nextSeq ∨ (p.receiver.nextSeq < k ∧ _)
    rw [found_insert, found]
    have fresh : i + 1 ∉ backlog shouldDrop i := by
      intro inside
      have := (bounds _ inside).2
      omega
    constructor
    · rintro (same | rfl | ⟨above, high, outside⟩)
      · exact .inl same
      · exact .inr ⟨by omega, Nat.le_refl _, fresh⟩
      · exact .inr ⟨above, by omega, outside⟩
    · rintro (same | ⟨above, high, outside⟩)
      · exact .inl same
      · rcases Nat.lt_or_eq_of_le high with below | same
        · exact .inr (.inr ⟨above, by omega, outside⟩)
        · exact .inr (.inl same)
  · change FiniteMap.size ((buffered payloads i p.receiver).pending.insert p.receiver.nextSeq _) + _ +
      p.receiver.nextSeq = i + 2
    have missing : (buffered payloads i p.receiver).pending.lookup p.receiver.nextSeq = none := ahead.absent
    rw [size_insert_fresh _ missing, behind, List.tail_cons]
    rw [behind, List.length_cons] at balance
    omega

theorem Recovering.ready (recovering : Recovering s payloads shouldDrop i p) (loaded : Loaded s payloads)
    (sent : i < payloads.length) (room : waiting shouldDrop i + 1 < kMaxPendingPackets) :
    let ready := p.beforeDrain s.requestChannel (i + 1) (packetOf payloads (i + 1)).count
      (packetOf payloads (i + 1)).payload
    Ready s shouldDrop i ready.1 ready.2 := by
  intro ready
  have waits := recovering.size_pending
  have stored : ready = (buffered payloads i p.receiver).resolveGaps s.requestChannel p.requests := by
    simp only [ready, Endpoint.beforeDrain]
    rw [Receiver.buffer, if_neg (by omega)]
    rfl
  rw [stored]
  cases losses : backlog shouldDrop i with
  | nil => exact recovering.ready_caught_up losses
  | cons x rest => exact recovering.ready_behind loaded sent room losses

theorem Ready.drained {r r' : Receiver} {unread : List (Fin s.messages.length)}
    (ready : Ready s shouldDrop i r unread) (arrives : shouldDrop (i + 1) = false) (drained : Drained r r')
    (above : Above r') :
    r'.nextSeq = (backlog shouldDrop (i + 1)).headD (i + 2) ∧
      (∀ k, r'.pending.lookup k ≠ none ↔ r'.nextSeq < k ∧ k ≤ i + 1 ∧ k ∉ backlog shouldDrop (i + 1)) ∧
      size r'.pending + (backlog shouldDrop (i + 1)).length + r'.nextSeq = i + 2 ∧
      Climbs r'.nextSeq (unread.map seqOf) := by
  obtain ⟨nextSeq, keys, balance, climbs⟩ := ready
  have bounds := backlog_bounds shouldDrop i
  have sorted := backlog_sorted shouldDrop i
  have popped : backlog shouldDrop (i + 1) = (backlog shouldDrop i).tail := by
    rw [backlog, if_neg (by simp [arrives])]
  have beyond : r.nextSeq < r'.nextSeq := by
    refine Nat.lt_of_le_of_ne drained.le fun same => ?_
    have there := (keys r.nextSeq).mpr (.inl rfl)
    rw [← drained.kept _ (Nat.le_of_eq same.symm), same] at there
    exact there above.absent
  have missing : ¬ (r'.nextSeq = r.nextSeq ∨
      (r.nextSeq < r'.nextSeq ∧ r'.nextSeq ≤ i + 1 ∧ r'.nextSeq ∉ backlog shouldDrop i)) := by
    rw [← keys, ← drained.kept _ (Nat.le_refl _)]
    exact not_not.mpr above.absent
  have moved : r'.nextSeq = (backlog shouldDrop i).tail.headD (i + 2) := by
    rw [nextSeq] at missing beyond
    refine headD_tail sorted (fun x inside => (bounds x inside).2) (Nat.le_of_lt beyond) (fun k low high => ?_)
      (not_or.mp missing)
    have there := (keys k).mp (drained.covered k (by omega) high)
    rw [nextSeq] at there
    exact (there.resolve_left (by omega)).2
  refine ⟨by rw [popped, moved], fun k => ?_, ?_, climbs.mono beyond⟩
  · rw [popped]
    constructor
    · intro there
      obtain ⟨node, found⟩ := Option.ne_none_iff_exists'.mp there
      have high := above k node found
      rw [drained.kept k (Nat.le_of_lt high), keys] at there
      obtain ⟨-, low, outside⟩ := there.resolve_left (by omega)
      exact ⟨high, low, fun inside => outside (List.mem_of_mem_tail inside)⟩
    · rintro ⟨high, low, outside⟩
      rw [drained.kept k (Nat.le_of_lt high), keys]
      refine .inr ⟨by omega, low, fun inside => ?_⟩
      cases losses : backlog shouldDrop i with
      | nil => simp [losses] at inside
      | cons x rest =>
        rw [losses] at inside outside nextSeq
        rcases List.mem_cons.mp inside with here | later
        · simp only [List.headD_cons] at nextSeq
          omega
        · exact outside later
  · have even := drained.balance
    rw [popped]
    omega

theorem Recovering.arrives (recovering : Recovering s payloads shouldDrop i p) (loaded : Loaded s payloads)
    (sent : i < payloads.length) (arrives : shouldDrop (i + 1) = false)
    (room : waiting shouldDrop i + 1 < kMaxPendingPackets) :
    Recovering s payloads shouldDrop (i + 1) (p.poll s.requestChannel h (wire s payloads (i + 1))).2 := by
  have framable := message_framable loaded
  have replies : s.requestChannel.Genuine (Single (message payloads)) p.receiver.session := by
    rw [recovering.session]
    exact requestChannel_genuine loaded
  have genuine : Genuine (Single (message payloads)) p.receiver.session (wire s payloads (i + 1)) := by
    rw [recovering.session]
    exact wire_genuine loaded (Nat.le_add_left _ _) sent
  have low : p.receiver.nextSeq ≤ i + 1 := recovering.nextSeq ▸ (backlog_headD_le shouldDrop i).2
  have fresh := wire_fresh loaded recovering.session sent low
  have ready := recovering.ready loaded sent room
  have filled : Filled (Single (message payloads)) p.receiver
      (p.beforeDrain s.requestChannel (i + 1) (packetOf payloads (i + 1)).count
        (packetOf payloads (i + 1)).payload).1 :=
    beforeDrain_filled low (freshPacket_genuine genuine fresh).2 replies
  obtain ⟨above, buffers⟩ := poll_single (h := h) framable replies genuine ⟨recovering.above, recovering.buffers⟩
  have session : (p.poll s.requestChannel h (wire s payloads (i + 1))).2.receiver.session = s.session := by
    rw [poll_session, recovering.session]
  rw [poll_fresh _ h fresh, Endpoint.accept, if_neg (Nat.not_lt.mpr low)] at above buffers session ⊢
  obtain ⟨nextSeq, keys, balance, climbs⟩ := ready.drained arrives
    (drainLoop_drained framable (recovering.buffers.filled filled) _ p.handler 0) above
  exact ⟨session, nextSeq, keys, balance, buffers, climbs⟩

theorem Recovering.wedges (recovering : Recovering s payloads shouldDrop i p) (loaded : Loaded s payloads)
    (sent : i < payloads.length) (crowded : kMaxPendingPackets ≤ waiting shouldDrop i + 1) :
    Wedged (p.poll s.requestChannel h (wire s payloads (i + 1))).2.receiver ∧
      (p.poll s.requestChannel h (wire s payloads (i + 1))).2.receiver.nextSeq ≤ i := by
  have full := recovering.size_pending
  have many : 1 < kMaxPendingPackets := by decide
  have balance := recovering.balance
  have behind : p.receiver.nextSeq ≤ i := by omega
  have wedged : Wedged (p.receiver.buffer (i + 1) (packetOf payloads (i + 1)).count
      (packetOf payloads (i + 1)).payload) := by
    by_cases already : kMaxPendingPackets ≤ size p.receiver.pending
    · exact Wedged.buffer ⟨already, recovering.above.absent⟩ _ _ _
    · refine ⟨?_, ?_⟩
      · rw [buffer_room (by omega), size_insert_fresh _ recovering.absent]
        omega
      · rw [buffer_room (by omega), buffer_nextSeq, lookup_insert_eq, if_neg (by omega)]
        exact recovering.above.absent
  rw [poll_fresh _ h (wire_fresh loaded recovering.session sent (by omega))]
  obtain ⟨stuck, same⟩ := wedged.accept s.requestChannel h (by omega)
  exact ⟨stuck, same.trans_le behind⟩

def survivors (s : Sender) (shouldDrop : Nat → Bool) (i : Nat) : List Recv :=
  (List.range i).filterMap fun i =>
    if shouldDrop (i + 1) then none else some (s.sendDataPacket (i + 1) 1 (s.messages.getD i []))

theorem survivors_succ (loaded : Loaded s payloads) (sent : i < payloads.length) :
    survivors s shouldDrop (i + 1) =
      survivors s shouldDrop i ++ if shouldDrop (i + 1) then [] else [wire s payloads (i + 1)] := by
  rw [survivors, List.range_succ, List.filterMap_append, List.filterMap_cons, List.filterMap_nil,
    data_wire loaded sent, survivors]
  cases shouldDrop (i + 1) <;> rfl

theorem roomy_succ : Roomy shouldDrop (i + 1) ↔
    Roomy shouldDrop i ∧ (shouldDrop (i + 1) = false → waiting shouldDrop i + 1 < kMaxPendingPackets) := by
  constructor
  · intro roomy
    exact ⟨fun k low => roomy k (by omega), roomy i (Nat.lt_succ_self i)⟩
  · rintro ⟨before, last⟩ k low
    rcases Nat.lt_or_eq_of_le (Nat.le_of_lt_succ low) with earlier | rfl
    · exact before k earlier
    · exact last

def sessionRun (h : Handler σ) (s : Sender) (start : σ) (arrived : List Recv) :
    Endpoint (List (Fin s.messages.length)) σ :=
  Endpoint.run s.requestChannel h ⟨{ session := s.session }, [], start⟩ arrived

theorem sessionRun_survivors (loaded : Loaded s payloads) (shouldDrop : Nat → Bool) (start : σ)
    (sent : i ≤ payloads.length) :
    (Roomy shouldDrop i → Recovering s payloads shouldDrop i (sessionRun h s start (survivors s shouldDrop i))) ∧
      (¬ Roomy shouldDrop i → Wedged (sessionRun h s start (survivors s shouldDrop i)).receiver ∧
        (sessionRun h s start (survivors s shouldDrop i)).receiver.nextSeq ≤ i) := by
  induction i with
  | zero =>
    refine ⟨fun _ => ⟨rfl, rfl, fun k => ?_, rfl, fun _ _ found => (nomatch found), trivial⟩,
      fun crowded => absurd (fun _ low => absurd low (Nat.not_lt_zero _)) crowded⟩
    refine iff_of_false (fun there => there rfl) ?_
    omega
  | succ i ih =>
    obtain ⟨fine, stuck⟩ := ih (by omega)
    rw [survivors_succ loaded sent, roomy_succ]
    cases lost : shouldDrop (i + 1) with
    | true =>
      simp only [if_true, List.append_nil, Bool.true_eq_false, false_implies, and_true]
      refine ⟨fun roomy => (fine roomy).lost lost, fun crowded => ?_⟩
      obtain ⟨wedged, low⟩ := stuck crowded
      exact ⟨wedged, by omega⟩
    | false =>
      simp only [Bool.false_eq_true, if_false, true_implies]
      rw [sessionRun, run_append]
      constructor
      · rintro ⟨roomy, room⟩
        exact (fine roomy).arrives loaded sent lost room
      · intro crowded
        by_cases roomy : Roomy shouldDrop i
        · obtain ⟨wedged, low⟩ := (fine roomy).wedges (h := h) loaded sent (by
            by_contra room
            exact crowded ⟨roomy, by omega⟩)
          exact ⟨wedged, low.trans (Nat.le_succ i)⟩
        · obtain ⟨wedged, low⟩ := stuck roomy
          obtain ⟨still, same⟩ := wedged.poll s.requestChannel h (wire s payloads (i + 1))
          exact ⟨still, same.trans_le (low.trans (Nat.le_succ i))⟩

theorem survivors_wire (loaded : Loaded s payloads) {n : Nat} (known : n ≤ payloads.length) {e : Recv}
    (inside : e ∈ survivors s shouldDrop n) : ∃ i, i < n ∧ e = wire s payloads (i + 1) := by
  obtain ⟨i, member, sent⟩ := List.mem_filterMap.mp inside
  have low := List.mem_range.mp member
  rw [data_wire loaded (by omega)] at sent
  split at sent
  · cases sent
  · exact ⟨i, low, (Option.some.inj sent).symm⟩

theorem wire_data (loaded : Loaded s payloads) (i : Nat) {buf : List UInt8}
    (received : (wire s payloads i).packet = some buf) : (decode buf).count ≠ kEndOfSession := by
  rw [wire, datagram_packet loaded.id, Option.some.injEq] at received
  rw [← received, decode_encode loaded.id]
  exact show (1 : UInt16) ≠ kEndOfSession by decide

theorem poll_endOfSession (id : SessionId s.session) (same : p.receiver.session = s.session) (nextSeq : Nat) :
    (p.poll s.requestChannel h (s.sendEndOfSession nextSeq)).2 =
      { p with receiver := { p.receiver with ended := true } } := by
  let hdr : MoldUdp64.Header := { session := s.session, seq := UInt64.ofNat nextSeq, count := kEndOfSession }
  have received : (s.sendEndOfSession nextSeq).packet = some (encode hdr ++ []) := datagram_packet id
  have header : decode (encode hdr ++ []) = hdr := decode_encode id _
  simp only [Endpoint.poll, received, Endpoint.onPacket, header, hdr, sameSession, same, decide_true, Bool.not_true,
    Bool.false_eq_true, if_false, if_true]

theorem sendAll_genuine (loaded : Loaded s payloads) (shouldDrop : Nat → Bool) :
    ∀ e ∈ s.sendAll shouldDrop, Genuine (Single (message payloads)) s.session e := by
  have length := loaded_length loaded
  intro e inside
  rcases List.mem_append.mp inside with data | last
  · obtain ⟨i, low, rfl⟩ := survivors_wire loaded (Nat.le_of_eq length) data
    exact wire_genuine loaded (Nat.le_add_left _ _) (by omega)
  · intro buf received _ _ running
    rw [List.mem_singleton.mp last, sendEndOfSession, datagram_packet loaded.id, Option.some.injEq] at received
    rw [← received, decode_encode loaded.id] at running
    exact absurd rfl running

theorem sessionRun_delivers (loaded : Loaded s payloads) (start : σ) {arrived : List Recv}
    (genuine : ∀ e ∈ arrived, Genuine (Single (message payloads)) s.session e) :
    (sessionRun h s start arrived).receiver.session = s.session ∧
      Delivers h (message payloads) start (sessionRun h s start arrived).receiver
        (sessionRun h s start arrived).handler := by
  have weaker (k : Nat) (q : PendingPacket) (single : Single (message payloads) k q) :
      Carries (message payloads) k q := single.1.carries
  have initial : Delivers h (message payloads) start ({ session := s.session } : Receiver) start :=
    ⟨Nat.le_refl 1, show 1 < 2 ^ 64 by decide, Nat.zero_le _, fun _ _ found => (nomatch found), rfl⟩
  refine run_invariant ⟨{ session := s.session }, [], start⟩
    (fun q => Delivers h (message payloads) start q.receiver q.handler) genuine initial ?_
  intro q e same delivers fresh
  have replies : s.requestChannel.Genuine (Carries (message payloads)) q.receiver.session := by
    rw [same]
    exact fun x sent e' inside => (requestChannel_genuine loaded x sent e' inside).mono weaker
  exact (poll_delivers (message_framable loaded) replies delivers (fresh.mono weaker)).1

theorem messages_payloads (payloads : List (List UInt8)) :
    messages (message payloads) 1 payloads.length = payloads := by
  refine List.ext_getElem (messages_length _ _ _) fun i low inside => ?_
  simp [messages, message, inside]

theorem sessionRun_sendAll (loaded : Loaded s payloads) (shouldDrop : Nat → Bool) (start : σ) :
    let before := sessionRun h s start (survivors s shouldDrop s.messages.length)
    sessionRun h s start (s.sendAll shouldDrop) =
      { before with receiver := { before.receiver with ended := true } } := by
  intro before
  have same : before.receiver.session = s.session :=
    (sessionRun_delivers loaded start fun e inside =>
      sendAll_genuine loaded shouldDrop e (List.mem_append_left _ inside)).1
  change Endpoint.run _ _ _ (survivors s shouldDrop s.messages.length ++ [_]) = _
  rw [run_append]
  exact poll_endOfSession loaded.id same _

theorem sessionRun_ended (loaded : Loaded s payloads) (start : σ) {seen rest : List Recv}
    (split : s.sendAll shouldDrop = seen ++ rest) :
    (sessionRun h s start seen).receiver.ended = true ↔ rest = [] := by
  have length := loaded_length loaded
  have whole : s.sendAll shouldDrop = survivors s shouldDrop s.messages.length ++
      [s.sendEndOfSession (s.messages.length + 1)] := rfl
  rcases List.eq_nil_or_concat' rest with rfl | ⟨before, last, rfl⟩
  · rw [List.append_nil] at split
    refine iff_of_true ?_ rfl
    rw [← split, sessionRun_sendAll loaded]
  · rw [whole, ← List.append_assoc] at split
    have data : survivors s shouldDrop s.messages.length = seen ++ before := (List.append_inj' split rfl).1
    have early : ∀ e ∈ seen, ∃ i, e = wire s payloads i := by
      intro e inside
      have member : e ∈ survivors s shouldDrop s.messages.length := by
        rw [data]
        exact List.mem_append_left _ inside
      obtain ⟨i, -, sent⟩ := survivors_wire loaded (Nat.le_of_eq length) member
      exact ⟨i + 1, sent⟩
    have running : (sessionRun h s start seen).receiver.ended = false := by
      clear split data
      induction seen using List.reverseRecOn with
      | nil => rfl
      | append_singleton seen e ih =>
        obtain ⟨i, rfl⟩ := early e (by simp)
        rw [sessionRun, run_append, poll_ended _ fun _ received => wire_data loaded i received]
        exact ih fun e inside => early e (by simp [inside])
    simp [running]

theorem sessionRun_nextSeq (loaded : Loaded s payloads) (shouldDrop : Nat → Bool) (start : σ) :
    (sessionRun h s start (s.sendAll shouldDrop)).receiver.nextSeq = s.messages.length + 1 ↔
      Recoverable shouldDrop s.messages.length := by
  obtain ⟨fine, stuck⟩ :=
    sessionRun_survivors (h := h) loaded shouldDrop start (Nat.le_of_eq (loaded_length loaded))
  rw [sessionRun_sendAll loaded]
  change (sessionRun h s start (survivors s shouldDrop s.messages.length)).receiver.nextSeq = _ ↔ _
  by_cases roomy : Roomy shouldDrop s.messages.length
  · rw [(fine roomy).nextSeq]
    constructor
    · intro done
      refine ⟨?_, roomy⟩
      cases losses : backlog shouldDrop s.messages.length with
      | nil => rfl
      | cons x rest =>
        have := (backlog_bounds shouldDrop s.messages.length x (by simp [losses])).2
        rw [losses, List.headD_cons] at done
        omega
    · rintro ⟨empty, -⟩
      rw [empty, List.headD_nil]
  · have low := (stuck roomy).2
    exact iff_of_false (by omega) fun recoverable => roomy recoverable.2

end Session

/-- A lossy session whose requests are all served is recovered completely
exactly when its losses can be: every arrival recovers the oldest open loss, so
none may be left open at the end, and on the way no arrival may find the
reorder buffer without room for the reply it brings. -/
theorem lossy_session_recovered_iff {σ : Type} (h : Handler σ) (start : σ) (session framed : List UInt8)
    (id : SessionId session) (fits : framed.length < 2 ^ 64) (shouldDrop : Nat → Bool) :
    let sender := Sender.load { session } framed
    let run := Endpoint.run sender.requestChannel h ⟨{ session }, [], start⟩
    let final := run (sender.sendAll shouldDrop)
    (∀ seen rest, sender.sendAll shouldDrop = seen ++ rest →
      ((run seen).receiver.ended = true ↔ rest = [])) ∧
    (final.handler = feed h start (frames framed) ∧ final.receiver.nextSeq = sender.messages.length + 1 ↔
      Recoverable shouldDrop sender.messages.length) := by
  intro sender run final
  have loaded : Loaded sender (frames framed) := load_loaded id fits
  have recovered : final.receiver.nextSeq = sender.messages.length + 1 ↔ _ :=
    sessionRun_nextSeq loaded shouldDrop start
  have handed : final.handler = feed h start (messages (message (frames framed)) 1 (final.receiver.nextSeq - 1)) :=
    (sessionRun_delivers loaded start (sendAll_genuine loaded shouldDrop)).2.handed
  have whole := messages_payloads (frames framed)
  rw [← loaded_length loaded] at whole
  refine ⟨fun seen rest split => sessionRun_ended loaded start split, ?_⟩
  rw [← recovered]
  refine ⟨And.right, fun done => ⟨?_, done⟩⟩
  rw [handed, done, Nat.add_sub_cancel, whole]

section Losses

-- Three messages, and a handler that counts what it is handed.
def demoSender : Sender := Sender.load { session := demoSession } (stream (messages demoMessage 1 3))

def countingRun (shouldDrop : Nat → Bool) : Endpoint (List (Fin demoSender.messages.length)) Nat :=
  Endpoint.run demoSender.requestChannel (fun _ n => n + 1) ⟨{ session := demoSession }, [], 0⟩
    (demoSender.sendAll shouldDrop)

theorem lossy_session_recovered_iff_one_loss :
    let final := countingRun (· == 2)
    final.handler = feed (fun _ n => n + 1) 0 (frames (stream (messages demoMessage 1 3))) ∧
      final.receiver.nextSeq = demoSender.messages.length + 1 := by
  have law := lossy_session_recovered_iff (fun _ n => n + 1) 0 demoSession (stream (messages demoMessage 1 3))
    rfl (by decide) (· == 2)
  exact law.2.mpr (by decide)

-- Messages 1 and 2 are lost. The arrival of message 3 brings back message 1,
-- the reply for message 2 stays unread, and the session ends.
theorem consecutive_losses_stay_open :
    let final := countingRun (· ≤ 2)
    demoSender.messages.length = 3 ∧ final.receiver.ended = true ∧ final.receiver.nextSeq = 2 ∧
      final.handler = 1 := by
  decide +kernel

end Losses

end ItchLob.Net
