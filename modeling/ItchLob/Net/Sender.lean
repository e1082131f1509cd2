import ItchLob.Net.Receiver

set_option autoImplicit false

namespace ItchLob.Net

open Itch hiding decode
open MoldUdp64 Framing

/-- messages_ holds whole frames, length bytes included; sequence number i + 1
is message i. -/
structure Sender where
  session : List UInt8
  messages : List (List UInt8) := []

namespace Sender

-- `rest` is the buffer from `off` on.
def loadLoop : Nat → List UInt8 → List (List UInt8)
  | 0, _ => []
  | fuel + 1, rest =>
    if 2 ≤ rest.length then
      let mlen := (be16 rest).toNat
      let frameLen := 2 + mlen
      if mlen = 0 ∨ frameLen > rest.length then []
      else rest.take frameLen :: loadLoop fuel (rest.drop frameLen)
    else []

def load (s : Sender) (framed : List UInt8) : Sender :=
  { s with messages := loadLoop framed.length framed }

def sendDataPacket (s : Sender) (seq : Nat) (count : UInt16) (payload : List UInt8) : Recv :=
  datagram s.session seq count payload

def sendEndOfSession (s : Sender) (nextSeq : Nat) : Recv := datagram s.session nextSeq kEndOfSession []

-- What reaches the data channel, in send order.
def sendAll (s : Sender) (shouldDrop : Nat → Bool) : List Recv :=
  ((List.range s.messages.length).filterMap fun i =>
    if shouldDrop (i + 1) then none else some (s.sendDataPacket (i + 1) 1 (s.messages.getD i []))) ++
    [s.sendEndOfSession (s.messages.length + 1)]

-- The reply for message i.
def sendReplyPacket (s : Sender) (i : Fin s.messages.length) : Recv :=
  datagram s.session (i + 1) 1 (s.messages.get i)

-- The messages that the loop over k answers with; the last argument counts
-- the turns that are left.
def serveLoop (s : Sender) (seq : Nat) : Nat → Nat → List (Fin s.messages.length)
  | _, 0 => []
  | k, left + 1 =>
    let wanted := (seq + k) % 2 ^ 64
    if known : 1 ≤ wanted ∧ wanted ≤ s.messages.length then
      ⟨wanted - 1, by omega⟩ :: serveLoop s seq (k + 1) left
    else []

def serveOneRequest (s : Sender) (e : Recv) : Bool × List (Fin s.messages.length) :=
  match e.packet with
  | none => (false, [])
  | some buf =>
    let hdr := decode buf
    if !sameSession hdr.session s.session then (false, [])
    else (true, s.serveLoop hdr.seq.toNat 0 hdr.count.toNat)

-- The request channel when every request is served and every reply arrives:
-- the state is what earlier attempts left unread in the receiver's socket, and
-- the new replies queue up behind it.
def queued (s : Sender) (unread : List (Fin s.messages.length)) (sent : List UInt8) :
    List (Fin s.messages.length) :=
  unread ++ (s.serveOneRequest { result := some sent }).2

def requestChannel (s : Sender) : RequestChannel (List (Fin s.messages.length)) where
  arrivals unread sent := (s.queued unread sent).map s.sendReplyPacket
  after unread sent left := (s.queued unread sent).rtake left.length

theorem loadLoop_frames (fuel : Nat) (rest : List UInt8) :
    loadLoop fuel rest = (splitFrames fuel rest).map frame := by
  induction fuel generalizing rest with
  | zero => rfl
  | succ fuel ih =>
    simp only [loadLoop, walk_turn, splitFrames]
    split
    next complete =>
      rw [List.map_cons, frame_payload complete, ih, be16_lengthPrefix, beyond]
    next => rfl

structure Loaded (s : Sender) (payloads : List (List UInt8)) : Prop where
  id : SessionId s.session
  messages : s.messages = payloads.map frame
  framable : ∀ p ∈ payloads, Framable p
  small : payloads.length + 1 < 2 ^ 64

theorem load_loaded {s : Sender} (id : SessionId s.session) {framed : List UInt8}
    (fits : framed.length < 2 ^ 64) : Loaded (s.load framed) (frames framed) where
  id := id
  messages := loadLoop_frames _ _
  framable := frames_framable framed
  small := by
    have short := frames_length framed
    omega

def seqOf {n : Nat} (i : Fin n) : Nat := i + 1

-- Known numbers are answered up to the last message, whatever the count.
theorem serveLoop_known {s : Sender} (small : s.messages.length + 1 < 2 ^ 64) {seq : Nat} (k left : Nat)
    (low : 1 ≤ seq + k) (high : seq + k ≤ s.messages.length + 1) :
    (s.serveLoop seq k left).map seqOf =
      List.range' (seq + k) (min left (s.messages.length + 1 - (seq + k))) := by
  induction left generalizing k with
  | zero => rw [Nat.zero_min]; rfl
  | succ left ih =>
    have exact : (seq + k) % 2 ^ 64 = seq + k := Nat.mod_eq_of_lt (by omega)
    rw [serveLoop]
    simp only [exact]
    by_cases known : seq + k ≤ s.messages.length
    · obtain ⟨more, rest⟩ : ∃ more, min (left + 1) (s.messages.length + 1 - (seq + k)) = more + 1 ∧
          min left (s.messages.length + 1 - (seq + (k + 1))) = more :=
        ⟨min left (s.messages.length - (seq + k)), by omega, by omega⟩
      rw [dif_pos ⟨low, known⟩, List.map_cons, ih (k + 1) (by omega) (by omega), rest.1, rest.2, List.range'_succ]
      simp only [seqOf, List.cons.injEq]
      exact ⟨by omega, rfl⟩
    · have ended : s.messages.length + 1 - (seq + k) = 0 := by omega
      rw [dif_neg fun valid => known valid.2, ended, Nat.min_zero]
      rfl

theorem serveLoop_unknown {s : Sender} {seq : Nat} (narrow : seq < 2 ^ 64) (unknown : ¬(1 ≤ seq ∧ seq ≤ s.messages.length))
    (left : Nat) : s.serveLoop seq 0 left = [] := by
  cases left with
  | zero => rfl
  | succ left =>
    have exact : (seq + 0) % 2 ^ 64 = seq := by rw [Nat.add_zero, Nat.mod_eq_of_lt narrow]
    rw [serveLoop]
    simp only [exact, unknown, dif_neg, not_false_eq_true]

theorem serveLoop_range {s : Sender} (small : s.messages.length + 1 < 2 ^ 64) {seq : Nat} (positive : 1 ≤ seq)
    (k left : Nat) (known : seq + k + left ≤ s.messages.length + 1) :
    (s.serveLoop seq k left).map seqOf = List.range' (seq + k) left := by
  rw [serveLoop_known small k left (by omega) (by omega), Nat.min_eq_left (by omega)]

theorem serve_header {s : Sender} (id : SessionId s.session) (seq : UInt64) (count : UInt16) (extra : List UInt8) :
    (s.serveOneRequest { result := some (encode ⟨s.session, seq, count⟩ ++ extra) }).2 =
      s.serveLoop seq.toNat 0 count.toNat := by
  have header : decode (encode ⟨s.session, seq, count⟩ ++ extra) = ⟨s.session, seq, count⟩ := decode_encode id extra
  have packet : ({ result := some (encode ⟨s.session, seq, count⟩ ++ extra) } : Recv).packet =
      some (encode ⟨s.session, seq, count⟩ ++ extra) := by
    have received : (datagram s.session seq.toNat count extra).packet = _ := datagram_packet id
    rwa [datagram, UInt64.ofNat_toNat] at received
  rw [serveOneRequest, packet]
  simp only [header, sameSession, decide_true, Bool.not_true, Bool.false_eq_true, if_false]

theorem serve_request {s : Sender} (id : SessionId s.session) (small : s.messages.length + 1 < 2 ^ 64)
    {r : Receiver} (same : r.session = s.session) (positive : 1 ≤ r.nextSeq) {front : Nat}
    (known : front ≤ s.messages.length + 1) (gap : r.nextSeq < front) :
    ((s.serveOneRequest { result := some (r.request front) }).2).map seqOf =
      List.range' r.nextSeq (min (front - r.nextSeq) 0xFFFE) := by
  let count := min (front - r.nextSeq) 0xFFFE
  have width : (UInt16.ofNat count).toNat = count :=
    UInt16.toNat_ofNat_of_lt' (show count < 65536 by omega)
  have served := serve_header id (UInt64.ofNat r.nextSeq) (UInt16.ofNat count) []
  rw [List.append_nil, datagram_seq (by omega), width] at served
  rw [Receiver.request, same, served]
  exact serveLoop_range small positive 0 count (by omega)

end Sender

end ItchLob.Net
