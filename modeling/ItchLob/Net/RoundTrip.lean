import ItchLob.Net.LossySession

set_option autoImplicit false

namespace ItchLob.Net

open Itch hiding decode
open FiniteMap MoldUdp64 Framing Sender

def retransmissions (session : List UInt8) (m : Nat → List UInt8) (a b : Nat) : List Recv :=
  (List.range' a (b - a)).map fun i => datagram session i 1 (frame (m i))

/-- The numbers of the datagrams that the receiver takes out of its request
socket before the first one that carries next_seq. -/
def takenBefore (r : Receiver) (unread : List Recv) : List Nat :=
  ((unread.filterMap (freshPacket r)).map Prod.fst).takeWhile (· ≠ r.nextSeq)

structure Closes {χ σ : Type} (h : Handler σ) (m : Nat → List UInt8) (p : Endpoint χ σ) (b : Nat)
    (out : Nat × Endpoint χ σ) : Prop where
  nextSeq : out.2.receiver.nextSeq = b + 1
  pending : out.2.receiver.pending = ∅
  handler : out.2.handler = feed h p.handler (messages m p.receiver.nextSeq (b + 1 - p.receiver.nextSeq))
  frames : out.1 = b + 1 - p.receiver.nextSeq

theorem closes_iff {χ σ : Type} {h : Handler σ} {m : Nat → List UInt8} {p : Endpoint χ σ} {b : Nat}
    {out : Nat × Endpoint χ σ} :
    Closes h m p b out ↔
      out.2.receiver.nextSeq = b + 1 ∧ out.2.receiver.pending = ∅ ∧
        out.2.handler = feed h p.handler (messages m p.receiver.nextSeq (b + 1 - p.receiver.nextSeq)) ∧
        out.1 = b + 1 - p.receiver.nextSeq := by
  constructor
  · intro closes
    exact ⟨closes.nextSeq, closes.pending, closes.handler, closes.frames⟩
  · rintro ⟨nextSeq, pending, handler, frames⟩
    exact ⟨nextSeq, pending, handler, frames⟩

section Reading

variable {m : Nat → List UInt8} {r : Receiver} {e : Recv} {seq : Nat} {node : PendingPacket}

theorem retransmissions_first {session : List UInt8} {a b : Nat} (gap : a < b) :
    retransmissions session m a b =
      datagram session a 1 (frame (m a)) :: retransmissions session m (a + 1) b := by
  obtain ⟨rest, length⟩ : ∃ rest, b - a = rest + 1 := ⟨b - a - 1, by omega⟩
  rw [retransmissions, length, List.range'_succ, List.map_cons, retransmissions, show b - (a + 1) = rest by omega]

theorem freshPacket_congr {r' : Receiver} (session : r'.session = r.session) (nextSeq : r'.nextSeq = r.nextSeq)
    (e : Recv) : freshPacket r' e = freshPacket r e := by
  rw [freshPacket, freshPacket, session, nextSeq]

theorem takenBefore_congr {r' : Receiver} (session : r'.session = r.session) (nextSeq : r'.nextSeq = r.nextSeq)
    (unread : List Recv) : takenBefore r' unread = takenBefore r unread := by
  have same : freshPacket r' = freshPacket r := funext (freshPacket_congr session nextSeq)
  rw [takenBefore, takenBefore, same, nextSeq]

theorem takenBefore_stale (stale : freshPacket r e = none) (unread : List Recv) :
    takenBefore r (e :: unread) = takenBefore r unread := by
  rw [takenBefore, List.filterMap_cons_none stale, takenBefore]

theorem takenBefore_fresh (fresh : freshPacket r e = some (seq, node)) (unread : List Recv) :
    takenBefore r (e :: unread) = if seq = r.nextSeq then [] else seq :: takenBefore r unread := by
  rw [takenBefore, List.filterMap_cons_some fresh, List.map_cons, List.takeWhile_cons]
  by_cases here : seq = r.nextSeq <;> simp [here, takenBefore]

theorem takenBefore_above {unread : List Recv} {k : Nat} (inside : k ∈ takenBefore r unread) : r.nextSeq < k := by
  have other := List.mem_takeWhile_imp inside
  obtain ⟨⟨seq, node⟩, taken, rfl⟩ := List.mem_map.mp ((List.takeWhile_prefix _).subset inside)
  obtain ⟨e, -, fresh⟩ := List.mem_filterMap.mp taken
  have anything : Genuine (fun _ _ => True) r.session e := fun _ _ _ _ _ => trivial
  have low := (freshPacket_genuine anything fresh).1
  have apart : seq ≠ r.nextSeq := of_decide_eq_true other
  exact Nat.lt_of_le_of_ne low apart.symm

theorem awaitReplies_other (above : Above r) (room : size r.pending < kMaxPendingPackets)
    (fresh : freshPacket r e = some (seq, node)) (other : seq ≠ r.nextSeq) (rest : List Recv) :
    r.awaitReplies (e :: rest) = (r.buffer seq node.count node.payload).awaitReplies rest ∧
      Above (r.buffer seq node.count node.payload) := by
  have anything : Genuine (fun _ _ => True) r.session e := fun _ _ _ _ _ => trivial
  have low := (freshPacket_genuine anything fresh).1
  have filled : Filled (fun _ _ => True) r (r.buffer seq node.count node.payload) :=
    Filled.buffer _ _ _ _ low trivial
  have least := above.atLeast.filled filled
  have missing : (r.buffer seq node.count node.payload).pending.lookup r.nextSeq = none := by
    rw [buffer_room room, lookup_insert_eq, if_neg other.symm]
    exact above.absent
  have onward := (frontIs_next least).not.mpr (by rw [buffer_nextSeq, missing]; exact fun there => there rfl)
  rw [buffer_nextSeq] at onward
  refine ⟨?_, least.above (by rw [buffer_nextSeq, missing])⟩
  rw [Receiver.awaitReplies, onReply_fresh fresh]
  simp only [onward]
  rfl

-- More entries than numbers in a range: one of them is outside.
theorem full_outside {low high : Nat} (near : high ≤ low + 255) (full : ¬ size r.pending < kMaxPendingPackets) :
    ∃ k, r.pending.lookup k ≠ none ∧ ¬ (low < k ∧ k ≤ high) := by
  by_contra within
  push Not at within
  have small := size_le_card (s := r.pending) (Finset.Ioc low high)
    fun k there => Finset.mem_Ioc.mpr (within k there)
  rw [Nat.card_Ioc] at small
  rw [kMaxPendingPackets] at full
  omega

structure Reaches (m : Nat → List UInt8) (r : Receiver) (before : List Nat) (r' : Receiver) : Prop where
  filled : Filled (Single m) r r'
  keys : ∀ k, r'.pending.lookup k ≠ none ↔ r.pending.lookup k ≠ none ∨ k ∈ before ∨ k = r.nextSeq

structure Overruns (low high : Nat) (r : Receiver) (before : List Nat) (r' : Receiver) : Prop where
  wedged : Wedged r'
  outside : ∃ k, (r.pending.lookup k ≠ none ∨ k ∈ before) ∧ ¬ (low < k ∧ k ≤ high)

theorem reaches_needed (above : Above r) (room : size r.pending < kMaxPendingPackets)
    (fresh : freshPacket r e = some (r.nextSeq, node)) (single : Single m r.nextSeq node) (rest : List Recv) :
    Reaches m r [] (r.awaitReplies (e :: rest)).1 := by
  rw [awaitReplies_needed above room fresh]
  refine ⟨Filled.buffer _ _ _ _ (Nat.le_refl _) single, fun k => ?_⟩
  rw [buffer_room room, found_insert]
  simp [or_comm]

theorem overruns_full {low high : Nat} (near : high ≤ low + 255) (above : Above r)
    (full : ¬ size r.pending < kMaxPendingPackets) (before : List Nat) (replies : List Recv) :
    Overruns low high r before (r.awaitReplies replies).1 := by
  have wedged : Wedged r := ⟨Nat.le_of_not_lt full, above.absent⟩
  obtain ⟨k, there, outside⟩ := full_outside near full
  exact ⟨wedged.awaitReplies _, k, .inl there, outside⟩

section Behind

variable {r' : Receiver} {before : List Nat} (room : size r.pending < kMaxPendingPackets)
include room

theorem buffer_keys (seq : Nat) (node : PendingPacket) (k : Nat) :
    (r.buffer seq node.count node.payload).pending.lookup k ≠ none ↔ k = seq ∨ r.pending.lookup k ≠ none := by
  rw [buffer_room room, found_insert]

theorem Reaches.behind (above : r.nextSeq ≤ seq) (single : Single m seq node)
    (reaches : Reaches m (r.buffer seq node.count node.payload) before r') : Reaches m r (seq :: before) r' := by
  have filled : Filled (Single m) r (r.buffer seq node.count node.payload) := Filled.buffer _ _ _ _ above single
  refine ⟨filled.trans reaches.filled, fun k => ?_⟩
  rw [reaches.keys, buffer_keys room, filled.nextSeq, List.mem_cons]
  tauto

theorem Overruns.behind {low high : Nat}
    (overruns : Overruns low high (r.buffer seq node.count node.payload) before r') :
    Overruns low high r (seq :: before) r' := by
  obtain ⟨wedged, k, there, outside⟩ := overruns
  rw [buffer_keys room] at there
  refine ⟨wedged, k, ?_, outside⟩
  rw [List.mem_cons]
  tauto

end Behind

theorem awaitReplies_reaches {reply : Recv} (above : Above r) (unread : List Recv)
    (genuine : ∀ e ∈ unread, Genuine (Single m) r.session e)
    (waits : ∀ e ∈ unread, e.packet = none → e.again = false) (wanted : Genuine (Single m) r.session reply)
    (needed : freshPacket r reply = some (r.nextSeq, node)) (tail : List Recv) {low high : Nat}
    (near : high ≤ low + 255) :
    Reaches m r (takenBefore r unread) (r.awaitReplies (unread ++ reply :: tail)).1 ∨
      Overruns low high r (takenBefore r unread) (r.awaitReplies (unread ++ reply :: tail)).1 := by
  induction unread generalizing r with
  | nil =>
    by_cases room : size r.pending < kMaxPendingPackets
    · exact .inl (reaches_needed above room needed (freshPacket_genuine wanted needed).2 tail)
    · exact .inr (overruns_full near above room _ _)
  | cons e unread ih =>
    have later : ∀ e' ∈ unread, Genuine (Single m) r.session e' :=
      fun e' inside => genuine e' (List.mem_cons_of_mem _ inside)
    have onward : ∀ e' ∈ unread, e'.packet = none → e'.again = false :=
      fun e' inside => waits e' (List.mem_cons_of_mem _ inside)
    by_cases room : size r.pending < kMaxPendingPackets
    · rw [List.cons_append]
      cases fresh : freshPacket r e with
      | none =>
        have goesOn : (e.packet.isNone && e.again) = false := by
          cases received : e.packet with
          | none => exact waits e (by simp) received
          | some buf => rfl
        rw [Receiver.awaitReplies, onReply_skips fresh, goesOn, takenBefore_stale fresh]
        exact ih above later onward wanted needed
      | some entry =>
        obtain ⟨seq, node⟩ := entry
        obtain ⟨low, single⟩ := freshPacket_genuine (genuine e (by simp)) fresh
        rw [takenBefore_fresh fresh]
        by_cases here : seq = r.nextSeq
        · subst here
          rw [if_pos rfl]
          exact .inl (reaches_needed above room fresh single _)
        · obtain ⟨goesOn, above'⟩ := awaitReplies_other above room fresh here (unread ++ reply :: tail)
          have filled : Filled (Single m) r (r.buffer seq node.count node.payload) :=
            Filled.buffer _ _ _ _ low single
          have same := freshPacket_congr filled.session filled.nextSeq
          have rest := ih above' (by rwa [filled.session]) onward (by rwa [filled.session])
            (by rw [same, filled.nextSeq, needed])
          rw [takenBefore_congr filled.session filled.nextSeq unread] at rest
          rw [goesOn, if_neg here]
          exact rest.imp (Reaches.behind room low single) (Overruns.behind room)
    · exact .inr (overruns_full near above room _ _)

theorem drainLoop_run {σ : Type} {h : Handler σ} (framable : ∀ i, 1 ≤ i → Framable (m i))
    (buffers : Buffers (Single m) r) {n : Nat}
    (keys : ∀ k, r.pending.lookup k ≠ none ↔ r.nextSeq ≤ k ∧ k < r.nextSeq + n) {fuel : Nat} (enough : n ≤ fuel)
    (s : σ) (frames : Nat) :
    let out := r.drainLoop h fuel s frames
    out.1.nextSeq = r.nextSeq + n ∧ out.1.pending = ∅ ∧ out.2.1 = feed h s (messages m r.nextSeq n) ∧
      out.2.2 = frames + n := by
  induction n generalizing r fuel s frames with
  | zero =>
    have none (k : Nat) : r.pending.lookup k = none := by
      by_contra there
      have := (keys k).mp there
      omega
    rw [drainLoop_absent (none _)]
    exact ⟨rfl, eq_empty none, rfl, rfl⟩
  | succ n ih =>
    obtain ⟨fuel, rfl⟩ : ∃ before, fuel = before + 1 := ⟨fuel - 1, by omega⟩
    obtain ⟨node, found⟩ := Option.ne_none_iff_exists'.mp ((keys r.nextSeq).mpr (by omega))
    have least : AtLeast r := fun k p there => ((keys k).mp (by simp [there])).1
    have single := buffers _ _ found
    have moved : (r.drainOne r.nextSeq node 1).nextSeq = r.nextSeq + 1 := by
      have exact := drainOne_exact single.1
      rwa [single.2] at exact
    have rest := ih (buffers.drainOne node 1) (fun k => by
      rw [drainOne_lookup, moved]
      split
      next here => exact ⟨fun there => absurd rfl there, fun inside => by omega⟩
      next other => rw [keys]; omega) (Nat.le_of_succ_le_succ enough)
      (feed h s (messages m r.nextSeq 1)) (frames + 1)
    rw [moved] at rest
    obtain ⟨nextSeq, pending, handler, count⟩ := rest
    simp only [Receiver.drainLoop, least.front found, if_true, single.1.parsed framable, single.2]
    refine ⟨by rw [nextSeq]; omega, pending, ?_, by rw [count]; omega⟩
    rw [handler, ← feed_append, messages_append, Nat.add_comm 1 n]

end Reading

theorem serve_retransmissions {s : Sender} {payloads : List (List UInt8)} (loaded : Loaded s payloads) {r : Receiver}
    (same : r.session = s.session) (positive : 1 ≤ r.nextSeq) {b : Nat} (gap : r.nextSeq < b)
    (near : b ≤ r.nextSeq + 255) (known : b ≤ payloads.length + 1) :
    (s.serveOneRequest { result := some (r.request b) }).2.map s.sendReplyPacket =
      retransmissions r.session (message payloads) r.nextSeq b := by
  have small := loaded.small
  have length := loaded_length loaded
  have served := serve_request loaded.id (by omega) same positive (by omega) gap
  rw [show min (b - r.nextSeq) 0xFFFE = b - r.nextSeq by omega] at served
  rw [retransmissions, ← served, List.map_map, same]
  exact List.map_congr_left fun i _ => reply_wire loaded i

section Call

variable {χ σ : Type} {ch : RequestChannel χ} {h : Handler σ} {m : Nat → List UInt8} {p : Endpoint χ σ} {b : Nat}
  {node : PendingPacket} {unread tail : List Recv}

theorem buffer_alone {r : Receiver} (empty : r.pending = ∅) (seq : Nat) (count : UInt16) (payload : List UInt8) :
    (r.buffer seq count payload).pending = (∅ : Map Nat PendingPacket).insert seq ⟨count, payload⟩ := by
  rw [buffer_room (by rw [empty]; decide), empty]

theorem buffer_alone_key {r : Receiver} (empty : r.pending = ∅) (seq : Nat) (count : UInt16) (payload : List UInt8)
    (k : Nat) : (r.buffer seq count payload).pending.lookup k ≠ none ↔ k = seq := by
  rw [buffer_alone empty, found_insert]
  exact or_iff_left fun there => there rfl

theorem resolveGaps_alone (ch : RequestChannel χ) (x : χ) (node : PendingPacket) {r : Receiver}
    (empty : r.pending = ∅) (gap : r.nextSeq < b) :
    let sending : Receiver :=
      { r.buffer b node.count node.payload with
        requestsSent := (r.buffer b node.count node.payload).requestsSent + 1 }
    let turn := sending.awaitReplies (ch.arrivals x (r.request b))
    (r.buffer b node.count node.payload).resolveGaps ch x =
      turn.1.resolveLoop ch 4 (ch.after x (r.request b) turn.2) := by
  intro sending turn
  have filled : Filled (fun _ _ => True) r (r.buffer b node.count node.payload) :=
    Filled.buffer _ _ _ _ gap.le trivial
  have front : first (r.buffer b node.count node.payload).pending = some (b, node) := by
    refine first_eq_some.mpr ⟨by rw [buffer_alone empty, AList.lookup_insert], fun k q there => ?_⟩
    exact Nat.le_of_eq ((buffer_alone_key empty _ _ _ k).mp (by rw [there]; exact Option.some_ne_none q)).symm
  have asked : (r.buffer b node.count node.payload).request b = r.request b := by
    rw [Receiver.request, Receiver.request, filled.session, filled.nextSeq]
  have behind : (r.buffer b node.count node.payload).nextSeq < b := by rwa [filled.nextSeq]
  rw [Receiver.resolveGaps, kMaxGapFillAttempts, Receiver.resolveLoop, front]
  simp only [behind, if_true, asked, turn, sending]

theorem beforeDrain_reaches (id : SessionId p.receiver.session) (empty : p.receiver.pending = ∅)
    (positive : 1 ≤ p.receiver.nextSeq) (single : Single m b node)
    (gap : p.receiver.nextSeq < b) (near : b ≤ p.receiver.nextSeq + 255)
    (genuine : ∀ e ∈ unread, Genuine (Single m) p.receiver.session e)
    (waits : ∀ e ∈ unread, e.packet = none → e.again = false)
    (arrive : ch.arrivals p.requests (p.receiver.request b) =
      unread ++ retransmissions p.receiver.session m p.receiver.nextSeq b ++ tail) :
    let ready := (p.beforeDrain ch b node.count node.payload).1
    (Filled (Single m) p.receiver ready ∧
      ∀ k, ready.pending.lookup k ≠ none ↔
        k = b ∨ k ∈ takenBefore p.receiver unread ∨ k = p.receiver.nextSeq) ∨
    (Wedged ready ∧ ready.nextSeq = p.receiver.nextSeq ∧
      ∃ k, (k = b ∨ k ∈ takenBefore p.receiver unread) ∧ ¬ (p.receiver.nextSeq < k ∧ k ≤ b)) := by
  intro ready
  have fits := single.1.fits
  rw [single.2] at fits
  let a := p.receiver.nextSeq
  let reply := datagram p.receiver.session a 1 (frame (m a))
  have wanted : Genuine (Single m) p.receiver.session reply :=
    genuine_datagram id (by omega) (single_frame m positive (by omega))
  have fresh : freshPacket p.receiver reply = some (a, ⟨1, frame (m a)⟩) :=
    freshPacket_datagram id (by omega) (show (1 : UInt16) ≠ kHeartbeat by decide)
      (show (1 : UInt16) ≠ kEndOfSession by decide) (Nat.le_refl a)
  let sending : Receiver :=
    { p.receiver.buffer b node.count node.payload with
      requestsSent := (p.receiver.buffer b node.count node.payload).requestsSent + 1 }
  have sent : Filled (Single m) p.receiver sending :=
    (Filled.buffer p.receiver b node.count node.payload gap.le single).trans (Filled.counted _ _)
  have alone (k : Nat) : sending.pending.lookup k ≠ none ↔ k = b := buffer_alone_key empty _ _ _ k
  have above : Above sending := by
    intro k q there
    rw [sent.nextSeq, (alone k).mp (by rw [there]; exact Option.some_ne_none q)]
    exact gap
  have begins : ready = _ := congrArg Prod.fst (resolveGaps_alone ch p.requests node empty gap)
  have reads := awaitReplies_reaches above unread (by rwa [sent.session]) waits
    (show Genuine (Single m) sending.session reply by rwa [sent.session])
    (show freshPacket sending reply = some (sending.nextSeq, _) by
      rw [freshPacket_congr sent.session sent.nextSeq, sent.nextSeq]
      exact fresh)
    (retransmissions p.receiver.session m (a + 1) b ++ tail) near
  rw [takenBefore_congr sent.session sent.nextSeq] at reads
  rw [arrive, retransmissions_first gap, List.append_assoc, List.cons_append] at begins
  rcases reads with ⟨further, keys⟩ | ⟨wedged, outside⟩
  · have whole := sent.trans further
    have least : AtLeast _ := AtLeast.filled (fun k q there => by rw [empty] at there; cases there) whole
    simp only [alone, sent.nextSeq] at keys
    simp only at begins
    rw [begins, resolveLoop_closed ch _ _ least (by rw [whole.nextSeq, keys]; exact .inr (.inr rfl))]
    exact .inl ⟨whole, keys⟩
  · have anything : Filled (fun _ _ => True) p.receiver ready :=
      beforeDrain_filled gap.le trivial fun _ _ _ _ _ _ _ _ _ => trivial
    simp only [alone] at outside
    refine .inr ⟨?_, anything.nextSeq, outside⟩
    rw [begins]
    exact wedged.resolveLoop ch _ _

section Drained

variable {ready : Receiver} {a : Nat} {taken : List Nat} (framable : ∀ i, 1 ≤ i → Framable (m i))
  (buffers : Buffers (Single m) ready) (next : ready.nextSeq = a)
  (keys : ∀ k, ready.pending.lookup k ≠ none ↔ k = b ∨ k ∈ taken ∨ k = a) (gap : a < b)
include framable buffers next keys gap

-- What was drained is the run from a on, and nothing else was buffered.
theorem exact_of_drained (later : ∀ k ∈ taken, a < k) {start : σ}
    (moved : (ready.drain h start).1.nextSeq = b + 1) (emptied : (ready.drain h start).1.pending = ∅) (k : Nat) :
    k = b ∨ k ∈ taken ↔ a < k ∧ k ≤ b := by
  have whole := drainLoop_drained (h := h) framable buffers (size ready.pending) start 0
  have covered := whole.covered k
  have kept := whole.kept k
  rw [next, show (ready.drainLoop h _ _ _).1.nextSeq = b + 1 from moved, keys] at covered
  rw [show (ready.drainLoop h _ _ _).1.nextSeq = b + 1 from moved,
    show (ready.drainLoop h _ _ _).1.pending = ∅ from emptied] at kept
  constructor
  · rintro (rfl | inside)
    · exact ⟨gap, Nat.le_refl _⟩
    · refine ⟨later k inside, ?_⟩
      by_contra beyond
      exact (keys k).mpr (.inr (.inl inside)) (kept (by omega)).symm
  · rintro ⟨low, high⟩
    rcases covered (by omega) (by omega) with last | inside | first
    · exact .inl last
    · exact .inr inside
    · omega

theorem drained_of_exact (exactly : ∀ k, k = b ∨ k ∈ taken ↔ a < k ∧ k ≤ b) (start : σ) :
    let drained := ready.drain h start
    drained.1.nextSeq = b + 1 ∧ drained.1.pending = ∅ ∧
      drained.2.1 = feed h start (messages m a (b + 1 - a)) ∧ drained.2.2 = b + 1 - a := by
  have run : ∀ k, ready.pending.lookup k ≠ none ↔ ready.nextSeq ≤ k ∧ k < ready.nextSeq + (b + 1 - a) := by
    intro k
    rw [keys, ← or_assoc, exactly k, next]
    omega
  have count : size ready.pending = b + 1 - a := by
    rw [size_eq_card (Finset.Ico a (b + 1)) fun k => ?_, Nat.card_Ico]
    rw [run, next, Finset.mem_Ico]
    omega
  have whole := drainLoop_run (h := h) framable buffers run (Nat.le_of_eq count.symm) start 0
  rw [next, Nat.zero_add, show a + (b + 1 - a) = b + 1 by omega] at whole
  exact whole

end Drained

/-- The round trip closes the gap exactly when what the receiver reads before
the first missing message is the rest of what is missing. -/
theorem round_trip_closes_iff {χ σ : Type} (ch : RequestChannel χ) (h : Handler σ) (m : Nat → List UInt8)
    (framable : ∀ i, 1 ≤ i → Framable (m i)) (p : Endpoint χ σ) (id : SessionId p.receiver.session)
    (empty : p.receiver.pending = ∅) (positive : 1 ≤ p.receiver.nextSeq) (b : Nat) (node : PendingPacket)
    (single : Single m b node) (gap : p.receiver.nextSeq < b) (near : b ≤ p.receiver.nextSeq + 255)
    (unread tail : List Recv) (genuine : ∀ e ∈ unread, Genuine (Single m) p.receiver.session e)
    (waits : ∀ e ∈ unread, e.packet = none → e.again = false)
    (arrive : ch.arrivals p.requests (p.receiver.request b) =
      unread ++ retransmissions p.receiver.session m p.receiver.nextSeq b ++ tail) :
    Closes h m p b (p.accept ch h b node.count node.payload) ↔
      ∀ k, k = b ∨ k ∈ takenBefore p.receiver unread ↔ p.receiver.nextSeq < k ∧ k ≤ b := by
  let ready := (p.beforeDrain ch b node.count node.payload).1
  have call : p.accept ch h b node.count node.payload = _ := if_neg (Nat.not_lt.mpr gap.le)
  rw [call, closes_iff]
  rcases beforeDrain_reaches id empty positive single gap near genuine waits arrive with
    ⟨filled, keys⟩ | ⟨wedged, stays, k, there, outside⟩
  · have buffers : Buffers (Single m) ready :=
      Buffers.filled (fun k q found => by rw [empty] at found; cases found) filled
    constructor
    · rintro ⟨moved, emptied, -, -⟩
      exact exact_of_drained framable buffers filled.nextSeq keys gap (fun _ => takenBefore_above) moved emptied
    · exact fun exactly => drained_of_exact framable buffers filled.nextSeq keys gap exactly p.handler
  · constructor
    · rintro ⟨moved, -⟩
      have stuck : (ready.drainLoop h (size ready.pending) p.handler 0).1.nextSeq = p.receiver.nextSeq := by
        rw [drainLoop_absent wedged.absent]
        exact stays
      have same : (ready.drainLoop h (size ready.pending) p.handler 0).1.nextSeq = b + 1 := moved
      omega
    · exact fun exactly => absurd ((exactly k).mp there) outside

-- A new receiver in front of a sender that has three messages.
def demoStart : Endpoint (List (Fin demoSender.messages.length)) Nat := ⟨{ session := demoSession }, [], 0⟩

def demoPayloads : List (List UInt8) := frames (stream (messages demoMessage 1 3))

theorem demo_loaded : Loaded demoSender demoPayloads :=
  load_loaded (show SessionId demoSession from rfl) (by decide)

theorem round_trip_closes_iff_adjacent :
    Closes (fun _ n => n + 1) (message demoPayloads) demoStart 2
      (demoStart.accept demoSender.requestChannel (fun _ n => n + 1) 2 1 (frame (message demoPayloads 2))) := by
  have replies : demoSender.requestChannel.arrivals demoStart.requests (demoStart.receiver.request 2) =
      [] ++ retransmissions demoSession (message demoPayloads) 1 2 ++ [] := by
    rw [List.nil_append, List.append_nil]
    exact serve_retransmissions demo_loaded rfl (Nat.le_refl 1) (by decide) (by decide) (by decide)
  refine (round_trip_closes_iff demoSender.requestChannel (fun _ n => n + 1) (message demoPayloads)
    (message_framable demo_loaded) demoStart rfl rfl (Nat.le_refl 1) 2 (packetOf demoPayloads 2)
    (packetOf_single (by decide) (by decide)) (by decide) (by decide) [] [] (fun _ inside => nomatch inside)
    (fun _ inside => nomatch inside) replies).mpr fun k => ?_
  simp only [takenBefore, demoStart, List.filterMap_nil, List.map_nil, List.takeWhile_nil, List.not_mem_nil, or_false]
  omega

-- Message 3 arrives first. Both missing messages are sent again, the wait ends
-- with the first of them, and message 3 still waits when the call returns.
theorem longer_gap_stays_open :
    let out := demoStart.accept demoSender.requestChannel (fun _ n => n + 1) 3 1 (frame (demoMessage 3))
    demoStart.receiver.nextSeq = 1 ∧ demoStart.receiver.pending = ∅ ∧
      Single demoMessage 3 ⟨1, frame (demoMessage 3)⟩ ∧
      demoSender.requestChannel.arrivals demoStart.requests (demoStart.receiver.request 3) =
        retransmissions demoSession demoMessage 1 3 ∧
      out.1 = 1 ∧ out.2.receiver.nextSeq = 2 ∧ out.2.receiver.pendingCount = 1 ∧
      ¬ Closes (fun _ n => n + 1) demoMessage demoStart 3 out := by
  intro out
  have next : out.2.receiver.nextSeq = 2 := by decide +kernel
  refine ⟨rfl, rfl, onePacket_single (i := 3) (by decide) (by decide), by decide +kernel, by decide +kernel, next,
    by decide +kernel, fun closes => ?_⟩
  rw [closes.nextSeq] at next
  omega

end Call

end ItchLob.Net
