import ItchLob.Net.PendingCap
import ItchLob.Net.Sender

set_option autoImplicit false

namespace ItchLob.Net

open Itch hiding decode
open FiniteMap MoldUdp64 Framing Sender

/-- No number in the queue is more than one above the bound and everything
before it. -/
def Climbs : Nat → List Nat → Prop
  | _, [] => True
  | bound, k :: rest => k ≤ bound ∧ Climbs (max bound (k + 1)) rest

theorem Climbs.mono {low high : Nat} {queue : List Nat} (climbs : Climbs low queue) (le : low ≤ high) :
    Climbs high queue := by
  induction queue generalizing low high with
  | nil => trivial
  | cons k rest ih => exact ⟨climbs.1.trans le, ih climbs.2 (by omega)⟩

theorem climbs_range {bound start : Nat} (low : start ≤ bound) (count : Nat) :
    Climbs bound (List.range' start count) := by
  induction count generalizing bound start with
  | zero => trivial
  | succ count ih => exact ⟨low, ih (by omega)⟩

theorem Climbs.append_range {bound start : Nat} {queue : List Nat} (climbs : Climbs bound queue)
    (low : start ≤ bound) (count : Nat) : Climbs bound (queue ++ List.range' start count) := by
  induction queue generalizing bound with
  | nil => exact climbs_range low count
  | cons k rest ih => exact ⟨climbs.1, ih climbs.2 (by omega)⟩

def message (payloads : List (List UInt8)) (i : Nat) : List UInt8 := payloads.getD (i - 1) [0]

def packetOf (payloads : List (List UInt8)) (i : Nat) : PendingPacket := ⟨1, frame (message payloads i)⟩

def wire (s : Sender) (payloads : List (List UInt8)) (i : Nat) : Recv :=
  datagram s.session i (packetOf payloads i).count (packetOf payloads i).payload

section GapFill

variable {σ : Type} {h : Handler σ} {s : Sender} {payloads : List (List UInt8)} {r r' : Receiver}

theorem message_framable (loaded : Loaded s payloads) (i : Nat) (_ : 1 ≤ i) : Framable (message payloads i) := by
  by_cases inside : i - 1 < payloads.length
  · rw [message, List.getD_eq_getElem _ _ inside]
    exact loaded.framable _ (List.getElem_mem inside)
  · rw [message, List.getD_eq_default _ _ (by omega)]
    exact ⟨by simp, by simp⟩

theorem packetOf_single {i : Nat} (positive : 1 ≤ i) (fits : i + 1 < 2 ^ 64) :
    Single (message payloads) i (packetOf payloads i) := single_frame (message payloads) positive fits

theorem loaded_length (loaded : Loaded s payloads) : s.messages.length = payloads.length := by
  rw [loaded.messages, List.length_map]

theorem loaded_get (loaded : Loaded s payloads) (i : Fin s.messages.length) :
    s.messages.get i = frame (message payloads (i + 1)) := by
  obtain ⟨session, messages⟩ := s
  obtain rfl : messages = payloads.map frame := loaded.messages
  have inside : i < payloads.length := loaded_length loaded ▸ i.isLt
  rw [message, Nat.add_sub_cancel, List.getD_eq_getElem _ _ inside]
  exact List.getElem_map frame

theorem reply_wire (loaded : Loaded s payloads) (i : Fin s.messages.length) :
    s.sendReplyPacket i = wire s payloads (seqOf i) := by
  rw [sendReplyPacket, loaded_get loaded]
  rfl

theorem data_wire (loaded : Loaded s payloads) {i : Nat} (sent : i < payloads.length) :
    s.sendDataPacket (i + 1) 1 (s.messages.getD i []) = wire s payloads (i + 1) := by
  have inside : i < s.messages.length := loaded_length loaded ▸ sent
  rw [sendDataPacket, List.getD_eq_getElem _ _ inside, show s.messages[i] = _ from loaded_get loaded ⟨i, inside⟩]
  rfl

theorem wire_genuine (loaded : Loaded s payloads) {i : Nat} (positive : 1 ≤ i) (known : i ≤ payloads.length) :
    Genuine (Single (message payloads)) s.session (wire s payloads i) := by
  have small := loaded.small
  exact genuine_datagram loaded.id (by omega) (packetOf_single positive (by omega))

theorem requestChannel_genuine (loaded : Loaded s payloads) :
    s.requestChannel.Genuine (Single (message payloads)) s.session := by
  intro unread sent e inside
  obtain ⟨i, -, rfl⟩ := List.mem_map.mp inside
  have known : i < payloads.length := loaded_length loaded ▸ i.isLt
  rw [reply_wire loaded]
  exact wire_genuine loaded (Nat.le_add_left _ _) known

theorem wire_fresh (loaded : Loaded s payloads) (same : r.session = s.session) {seq : Nat}
    (known : seq ≤ payloads.length) (above : r.nextSeq ≤ seq) :
    freshPacket r (wire s payloads seq) = some (seq, packetOf payloads seq) := by
  have small := loaded.small
  rw [wire, ← same]
  exact freshPacket_datagram (same ▸ loaded.id) (by omega) (show (1 : UInt16) ≠ kHeartbeat by decide)
    (show (1 : UInt16) ≠ kEndOfSession by decide) above

theorem onReply_late (loaded : Loaded s payloads) (same : r.session = s.session) {seq : Nat}
    (known : seq ≤ payloads.length) (late : seq < r.nextSeq) :
    r.onReply (wire s payloads seq) = (false, r) := by
  have small := loaded.small
  have stale : freshPacket r (wire s payloads seq) = none := by
    rw [wire, ← same]
    exact freshPacket_late (same ▸ loaded.id) (by omega) (show (1 : UInt16) ≠ kHeartbeat by decide)
      (show (1 : UInt16) ≠ kEndOfSession by decide) late
  rw [onReply_skips stale, wire, datagram_packet loaded.id]
  rfl

theorem awaitReplies_climbs (loaded : Loaded s payloads) (same : r.session = s.session) (above : Above r)
    (room : size r.pending < kMaxPendingPackets) {queue : List (Fin s.messages.length)}
    (climbs : Climbs r.nextSeq (queue.map seqOf)) (inside : r.nextSeq ∈ queue.map seqOf) :
    ∃ seen rest, queue = seen ++ rest ∧ Climbs (r.nextSeq + 1) (rest.map seqOf) ∧
      r.awaitReplies (queue.map s.sendReplyPacket) =
        (r.buffer r.nextSeq (packetOf payloads r.nextSeq).count (packetOf payloads r.nextSeq).payload,
          rest.map s.sendReplyPacket) := by
  induction queue with
  | nil => cases inside
  | cons i queue ih =>
    obtain ⟨low, climbs⟩ := climbs
    have known : seqOf i ≤ payloads.length := loaded_length loaded ▸ i.isLt
    rw [List.map_cons, reply_wire loaded]
    rcases Nat.lt_or_eq_of_le low with late | here
    · have skipped := onReply_late loaded same known late
      have later : r.nextSeq ∈ queue.map seqOf := by
        rcases List.mem_cons.mp inside with here | later
        · omega
        · exact later
      rw [show max r.nextSeq (seqOf i + 1) = r.nextSeq by omega] at climbs
      obtain ⟨seen, rest, split, further, read⟩ := ih climbs later
      refine ⟨i :: seen, rest, by simp [split], further, ?_⟩
      rw [Receiver.awaitReplies, skipped]
      exact read
    · have fresh := wire_fresh loaded same known (Nat.le_of_eq here.symm)
      rw [here] at fresh climbs ⊢
      exact ⟨[i], queue, rfl, climbs.mono (by omega), awaitReplies_needed above room fresh _⟩

theorem resolveLoop_closed {χ : Type} (ch : RequestChannel χ) (attempts : Nat) (x : χ) (least : AtLeast r)
    (there : r.pending.lookup r.nextSeq ≠ none) : r.resolveLoop ch attempts x = (r, x) := by
  obtain ⟨node, found⟩ := Option.ne_none_iff_exists'.mp there
  cases attempts with
  | zero => rfl
  | succ attempts => simp only [Receiver.resolveLoop, least.front found, Nat.lt_irrefl, if_false]

theorem resolveGaps_recovers (loaded : Loaded s payloads) (same : r.session = s.session) (positive : 1 ≤ r.nextSeq)
    (above : Above r) (room : size r.pending < kMaxPendingPackets) {front : Nat} {node : PendingPacket}
    (least : first r.pending = some (front, node)) (known : front ≤ payloads.length)
    {unread : List (Fin s.messages.length)} (climbs : Climbs r.nextSeq (unread.map seqOf)) :
    ∃ rest, Climbs (r.nextSeq + 1) (rest.map seqOf) ∧
      r.resolveGaps s.requestChannel unread =
        ({ r with
            requestsSent := r.requestsSent + 1
            pending := r.pending.insert r.nextSeq (packetOf payloads r.nextSeq) }, rest) := by
  have small := loaded.small
  have length := loaded_length loaded
  have gap : r.nextSeq < front := above _ _ (first_eq_some.mp least).1
  let count := min (front - r.nextSeq) 0xFFFE
  have served := serve_request loaded.id (by omega) same positive (by omega) gap
  have queued : (s.queued unread (r.request front)).map seqOf = unread.map seqOf ++ List.range' r.nextSeq count := by
    rw [Sender.queued, List.map_append, served]
  let sending : Receiver := { r with requestsSent := r.requestsSent + 1 }
  have needed : r.nextSeq ∈ List.range' r.nextSeq count := List.mem_range'_1.mpr (by omega)
  obtain ⟨seen, rest, split, further, read⟩ := awaitReplies_climbs (r := sending) loaded same above room
    (by rw [queued]; exact climbs.append_range (Nat.le_refl _) _)
    (by rw [queued]; exact List.mem_append_right _ needed)
  have stored : sending.buffer r.nextSeq (packetOf payloads r.nextSeq).count (packetOf payloads r.nextSeq).payload =
      { sending with pending := r.pending.insert r.nextSeq (packetOf payloads r.nextSeq) } := by
    rw [Receiver.buffer, if_neg fun full => Nat.not_le.mpr room full.1]
  have left : (s.queued unread (r.request front)).rtake (rest.map s.sendReplyPacket).length = rest := by
    rw [split, List.length_map, List.rtake, List.length_append, Nat.add_sub_cancel, List.drop_left]
  refine ⟨rest, further, ?_⟩
  rw [Receiver.resolveGaps, kMaxGapFillAttempts, Receiver.resolveLoop, least]
  simp only [gap, if_true, Sender.requestChannel]
  rw [read, left]
  change Receiver.resolveLoop _ _ (sending.buffer r.nextSeq _ _) _ = _
  rw [stored]
  refine resolveLoop_closed _ _ _ (fun k p found => ?_) ?_
  · change (r.pending.insert r.nextSeq _).lookup k = some p at found
    rw [lookup_insert_eq] at found
    split at found
    next here => exact Nat.le_of_eq here.symm
    next => exact above.atLeast k p found
  · change (r.pending.insert r.nextSeq _).lookup r.nextSeq ≠ none
    rw [lookup_insert_eq, if_pos rfl]
    simp

structure Drained (r r' : Receiver) : Prop where
  le : r.nextSeq ≤ r'.nextSeq
  covered : ∀ k, r.nextSeq ≤ k → k < r'.nextSeq → r.pending.lookup k ≠ none
  kept : ∀ k, r'.nextSeq ≤ k → r'.pending.lookup k = r.pending.lookup k
  balance : size r'.pending + r'.nextSeq = size r.pending + r.nextSeq

theorem Drained.refl (r : Receiver) : Drained r r :=
  ⟨Nat.le_refl _, fun _ low high => absurd high (Nat.not_lt.mpr low), fun _ _ => rfl, rfl⟩

theorem Drained.step {node : PendingPacket} (found : r.pending.lookup r.nextSeq = some node)
    {m : Nat → List UInt8} (single : Single m r.nextSeq node)
    (rest : Drained (r.drainOne r.nextSeq node 1) r') : Drained r r' := by
  obtain ⟨le, covered, kept, balance⟩ := rest
  have moved : (r.drainOne r.nextSeq node 1).nextSeq = r.nextSeq + 1 := by
    have exact := drainOne_exact single.1
    rwa [single.2] at exact
  have smaller : size r.pending = size (r.drainOne r.nextSeq node 1).pending + 1 := size_erase found
  rw [moved] at le covered balance
  refine ⟨by omega, fun k low high => ?_, fun k high => ?_, by omega⟩
  · rcases Nat.lt_or_eq_of_le low with later | here
    · have there := covered k later high
      rwa [drainOne_lookup, if_neg (by omega)] at there
    · rw [← here, found]
      simp
  · rw [kept k high, drainOne_lookup, if_neg (by omega)]

theorem drainLoop_drained {m : Nat → List UInt8} (framable : ∀ i, 1 ≤ i → Framable (m i))
    (buffers : Buffers (Single m) r) (fuel : Nat) (start : σ) (frames : Nat) :
    Drained r (r.drainLoop h fuel start frames).1 := by
  induction fuel generalizing r start frames with
  | zero => exact .refl r
  | succ fuel ih =>
    simp only [Receiver.drainLoop]
    split
    · exact .refl r
    next front node least =>
      split
      next here =>
        subst here
        have found := (first_eq_some.mp least).1
        have single := buffers _ _ found
        rw [single.1.parsed framable, single.2]
        exact .step found single (ih (buffers.drainOne node 1) _ _)
      next => exact .refl r

end GapFill

end ItchLob.Net
