import ItchLob.Shared.FiniteMap
import ItchLob.Itch.Parser
import ItchLob.Net.MoldUdp64

set_option autoImplicit false

namespace ItchLob.Net

open Itch hiding decode
open FiniteMap MoldUdp64

/-- One return of recv(): the datagram, or none for -1, and whether errno reads
EAGAIN or EWOULDBLOCK afterwards. A short datagram leaves errno as it was. -/
structure Recv where
  result : Option (List UInt8)
  again : Bool := false
  deriving DecidableEq, Repr

def Recv.packet (e : Recv) : Option (List UInt8) :=
  e.result.filter fun bytes => kHeaderLen ≤ bytes.length

structure PendingPacket where
  count : UInt16
  payload : List UInt8
  deriving DecidableEq, Repr

/-- next_seq_ and the keys of pending_ are 64-bit; a Nat with explicit reduction
where it grows. -/
structure Receiver where
  session : List UInt8
  nextSeq : Nat := 1
  ended : Bool := false
  requestsSent : Nat := 0
  droppedPending : Nat := 0
  countMismatches : Nat := 0
  pending : Map Nat PendingPacket := ∅

def kMaxPendingPackets : Nat := 256
def kMaxGapFillAttempts : Nat := 5

/-- The far end of the request channel: what recv() returns before the deadline
of an attempt that sent these bytes, and the channel after the attempt left
some of it unread. -/
structure RequestChannel (χ : Type) where
  arrivals : χ → List UInt8 → List Recv
  after : χ → List UInt8 → List Recv → χ

namespace Receiver

def pendingCount (r : Receiver) : Nat := size r.pending

def buffer (r : Receiver) (seq : Nat) (count : UInt16) (payload : List UInt8) : Receiver :=
  if kMaxPendingPackets ≤ size r.pending ∧ r.pending.lookup seq = none then
    { r with droppedPending := r.droppedPending + 1 }
  else { r with pending := r.pending.insert seq ⟨count, payload⟩ }

def frontIs (r : Receiver) (seq : Nat) : Bool := (first r.pending).map Prod.fst = some seq

-- One turn of the inner loop; true means break.
def onReply (r : Receiver) (e : Recv) : Bool × Receiver :=
  match e.packet with
  | none => (e.again, r)
  | some buf =>
    let h := decode buf
    if !sameSession h.session r.session then (false, r)
    else if h.count = kHeartbeat ∨ h.count = kEndOfSession then (false, r)
    else if h.seq.toNat < r.nextSeq then (false, r)
    else
      let r := r.buffer h.seq.toNat h.count (body buf)
      (r.frontIs r.nextSeq, r)

-- The end of the list is the deadline.
def awaitReplies : Receiver → List Recv → Receiver × List Recv
  | r, [] => (r, [])
  | r, e :: rest =>
    let turn := r.onReply e
    if turn.1 then (turn.2, rest) else awaitReplies turn.2 rest

def request (r : Receiver) (firstPending : Nat) : List UInt8 :=
  encode
    { session := r.session
      seq := UInt64.ofNat r.nextSeq
      count := UInt16.ofNat (min (firstPending - r.nextSeq) 0xFFFE) }

section Channel

variable {χ : Type} (ch : RequestChannel χ)

-- The first argument counts the attempts that are left.
def resolveLoop : Nat → Receiver → χ → Receiver × χ
  | 0, r, x => (r, x)
  | attempts + 1, r, x =>
    match first r.pending with
    | none => (r, x)
    | some (front, _) =>
      if r.nextSeq < front then
        let sent := r.request front
        let turn := awaitReplies { r with requestsSent := r.requestsSent + 1 } (ch.arrivals x sent)
        resolveLoop attempts turn.1 (ch.after x sent turn.2)
      else (r, x)

def resolveGaps (r : Receiver) (x : χ) : Receiver × χ := resolveLoop ch kMaxGapFillAttempts r x

variable {σ : Type} (h : Handler σ)

def drainOne (r : Receiver) (front : Nat) (node : PendingPacket) (parsed : Nat) : Receiver :=
  { r with
    countMismatches :=
      if parsed = node.count.toNat then r.countMismatches else r.countMismatches + 1
    nextSeq := (r.nextSeq + parsed) % 2 ^ 64
    pending := r.pending.erase front }

-- Every turn erases an entry, so the number of entries is enough fuel.
def drainLoop : Nat → Receiver → σ → Nat → Receiver × σ × Nat
  | 0, r, s, frames => (r, s, frames)
  | fuel + 1, r, s, frames =>
    match first r.pending with
    | none => (r, s, frames)
    | some (front, node) =>
      if front = r.nextSeq then
        let out := parseStream h node.payload s
        drainLoop fuel (r.drainOne front node out.2) out.1 (frames + out.2)
      else (r, s, frames)

def drain (r : Receiver) (s : σ) : Receiver × σ × Nat := drainLoop h (size r.pending) r s 0

end Channel

end Receiver

structure Endpoint (χ σ : Type) where
  receiver : Receiver
  requests : χ
  handler : σ

namespace Endpoint

variable {χ σ : Type} (ch : RequestChannel χ) (h : Handler σ)

-- The receiver as accept() hands it to drain().
def beforeDrain (p : Endpoint χ σ) (seq : Nat) (count : UInt16) (payload : List UInt8) : Receiver × χ :=
  (p.receiver.buffer seq count payload).resolveGaps ch p.requests

def accept (p : Endpoint χ σ) (seq : Nat) (count : UInt16) (payload : List UInt8) : Nat × Endpoint χ σ :=
  if seq < p.receiver.nextSeq then (0, p)
  else
    let ready := p.beforeDrain ch seq count payload
    let out := ready.1.drain h p.handler
    (out.2.2, ⟨out.1, ready.2, out.2.1⟩)

def onPacket (p : Endpoint χ σ) (buf : List UInt8) : Nat × Endpoint χ σ :=
  let hdr := decode buf
  if !sameSession hdr.session p.receiver.session then (0, p)
  else if hdr.count = kEndOfSession then (0, { p with receiver := { p.receiver with ended := true } })
  else if hdr.count = kHeartbeat then (0, p)
  else p.accept ch h hdr.seq.toNat hdr.count (body buf)

def poll (p : Endpoint χ σ) (e : Recv) : Nat × Endpoint χ σ :=
  match e.packet with
  | none => (0, p)
  | some buf => p.onPacket ch h buf

def run (p : Endpoint χ σ) (arrived : List Recv) : Endpoint χ σ :=
  arrived.foldl (fun p e => (p.poll ch h e).2) p

end Endpoint

def datagram (session : List UInt8) (seq : Nat) (count : UInt16) (payload : List UInt8) : Recv :=
  { result := some (encode { session, seq := UInt64.ofNat seq, count } ++ payload) }

section Datagram

variable {session : List UInt8} {seq : Nat} {count : UInt16} {payload : List UInt8}

theorem datagram_packet (id : SessionId session) :
    (datagram session seq count payload).packet =
      some (encode { session, seq := UInt64.ofNat seq, count } ++ payload) := by
  have long : kHeaderLen ≤ (encode { session, seq := UInt64.ofNat seq, count } ++ payload).length := by
    rw [List.length_append, encode_length id]
    exact Nat.le_add_right _ _
  simp only [Recv.packet, datagram, Option.filter_some, long, decide_true, if_true]

theorem datagram_seq (fits : seq < 2 ^ 64) : (UInt64.ofNat seq).toNat = seq :=
  UInt64.toNat_ofNat_of_lt' fits

end Datagram

/-- A datagram that passes the session and sentinel tests carries a packet for
which `fine` holds; anything else may arrive as it likes. -/
def Genuine (fine : Nat → PendingPacket → Prop) (session : List UInt8) (e : Recv) : Prop :=
  ∀ buf, e.packet = some buf → (decode buf).session = session →
    (decode buf).count ≠ kHeartbeat → (decode buf).count ≠ kEndOfSession →
    fine (decode buf).seq.toNat ⟨(decode buf).count, body buf⟩

def RequestChannel.Genuine {χ : Type} (ch : RequestChannel χ) (fine : Nat → PendingPacket → Prop)
    (session : List UInt8) : Prop :=
  ∀ x sent e, e ∈ ch.arrivals x sent → Net.Genuine fine session e

theorem genuine_datagram {fine : Nat → PendingPacket → Prop} {session : List UInt8} {seq : Nat}
    {count : UInt16} {payload : List UInt8} (id : SessionId session) (fits : seq < 2 ^ 64)
    (carries : fine seq ⟨count, payload⟩) : Genuine fine session (datagram session seq count payload) := by
  intro buf received _ _ _
  rw [datagram_packet id, Option.some.injEq] at received
  subst received
  rw [decode_encode id, body_encode id]
  simpa only [datagram_seq fits] using carries

structure Filled (fine : Nat → PendingPacket → Prop) (r r' : Receiver) : Prop where
  session : r'.session = r.session
  nextSeq : r'.nextSeq = r.nextSeq
  ended : r'.ended = r.ended
  capped : size r.pending ≤ kMaxPendingPackets → size r'.pending ≤ kMaxPendingPackets
  entries : ∀ k p, r'.pending.lookup k = some p →
    r.pending.lookup k = some p ∨ (r.nextSeq ≤ k ∧ fine k p)
  kept : ∀ k, r.pending.lookup k ≠ none → r'.pending.lookup k ≠ none

namespace Filled

variable {fine : Nat → PendingPacket → Prop} {r r' r'' : Receiver}

theorem refl (r : Receiver) : Filled fine r r :=
  ⟨rfl, rfl, rfl, id, fun _ _ found => .inl found, fun _ there => there⟩

theorem trans (left : Filled fine r r') (right : Filled fine r' r'') : Filled fine r r'' where
  session := right.session.trans left.session
  nextSeq := right.nextSeq.trans left.nextSeq
  ended := right.ended.trans left.ended
  capped small := right.capped (left.capped small)
  entries k p found := by
    rcases right.entries k p found with old | ⟨above, carries⟩
    · exact left.entries k p old
    · exact .inr ⟨left.nextSeq ▸ above, carries⟩
  kept k there := right.kept k (left.kept k there)

theorem buffer (r : Receiver) (seq : Nat) (count : UInt16) (payload : List UInt8)
    (above : r.nextSeq ≤ seq) (carries : fine seq ⟨count, payload⟩) :
    Filled fine r (r.buffer seq count payload) := by
  unfold Receiver.buffer
  split
  · exact ⟨rfl, rfl, rfl, id, fun _ _ found => .inl found, fun _ there => there⟩
  next room =>
    refine ⟨rfl, rfl, rfl, fun small => ?_, fun k p found => ?_, fun k there => ?_⟩
    · change size (r.pending.insert seq _) ≤ _
      cases present : r.pending.lookup seq with
      | none =>
        rw [size_insert_fresh _ present]
        by_contra full
        exact room ⟨by omega, present⟩
      | some old => rwa [size_insert_found _ present]
    · change (r.pending.insert seq _).lookup k = some p at found
      rw [lookup_insert_eq] at found
      by_cases here : k = seq
      · subst here
        rw [if_pos rfl, Option.some.injEq] at found
        exact .inr ⟨above, found ▸ carries⟩
      · rw [if_neg here] at found
        exact .inl found
    · change (r.pending.insert seq _).lookup k ≠ none
      rw [lookup_insert_eq]
      split
      · simp
      · exact there

theorem onReply {e : Recv} (genuine : Genuine fine r.session e) : Filled fine r (r.onReply e).2 := by
  unfold Receiver.onReply
  cases received : e.packet with
  | none => exact refl r
  | some buf =>
    simp only
    split
    · exact refl r
    next same =>
      split
      · exact refl r
      next data =>
        split
        · exact refl r
        next fresh =>
          simp only [sameSession, Bool.not_eq_true', decide_eq_false_iff_not, not_not] at same
          rw [not_or] at data
          exact buffer r _ _ _ (Nat.le_of_not_lt fresh) (genuine buf received same data.1 data.2)

theorem awaitReplies {replies : List Recv} (genuine : ∀ e ∈ replies, Genuine fine r.session e) :
    Filled fine r (r.awaitReplies replies).1 := by
  induction replies generalizing r with
  | nil => exact refl r
  | cons e rest ih =>
    have turn := onReply (genuine e (by simp))
    simp only [Receiver.awaitReplies]
    split
    · exact turn
    · refine turn.trans (ih fun e' later => ?_)
      rw [turn.session]
      exact genuine e' (by simp [later])

theorem counted (r : Receiver) (requests : Nat) : Filled fine r { r with requestsSent := requests } :=
  ⟨rfl, rfl, rfl, id, fun _ _ found => .inl found, fun _ there => there⟩

theorem resolveLoop {χ : Type} (ch : RequestChannel χ) (attempts : Nat) (x : χ)
    (genuine : ch.Genuine fine r.session) : Filled fine r (r.resolveLoop ch attempts x).1 := by
  induction attempts generalizing r x with
  | zero => exact refl r
  | succ attempts ih =>
    simp only [Receiver.resolveLoop]
    cases front : first r.pending with
    | none => exact refl r
    | some entry =>
      simp only
      split
      next gap =>
        have filled : Filled fine r _ := (counted r (r.requestsSent + 1)).trans
          (awaitReplies fun e inside => genuine x (r.request entry.1) e inside)
        refine filled.trans (ih _ ?_)
        rw [filled.session]
        exact genuine
      next => exact refl r

end Filled

theorem beforeDrain_filled {χ σ : Type} {ch : RequestChannel χ} {fine : Nat → PendingPacket → Prop}
    {p : Endpoint χ σ} {seq : Nat} {count : UInt16} {payload : List UInt8}
    (above : p.receiver.nextSeq ≤ seq) (carries : fine seq ⟨count, payload⟩)
    (genuine : ch.Genuine fine p.receiver.session) :
    Filled fine p.receiver (p.beforeDrain ch seq count payload).1 := by
  have buffered := Filled.buffer p.receiver seq count payload above carries
  refine buffered.trans (Filled.resolveLoop ch _ _ ?_)
  rw [buffered.session]
  exact genuine

def freshPacket (r : Receiver) (e : Recv) : Option (Nat × PendingPacket) :=
  e.packet.bind fun buf =>
    let hdr := decode buf
    if hdr.session = r.session ∧ hdr.count ≠ kHeartbeat ∧ hdr.count ≠ kEndOfSession ∧
        r.nextSeq ≤ hdr.seq.toNat then
      some (hdr.seq.toNat, ⟨hdr.count, body buf⟩)
    else none

theorem freshPacket_eq_some {r : Receiver} {e : Recv} {seq : Nat} {node : PendingPacket}
    (fresh : freshPacket r e = some (seq, node)) :
    ∃ buf, e.packet = some buf ∧ seq = (decode buf).seq.toNat ∧ node = ⟨(decode buf).count, body buf⟩ ∧
      (decode buf).session = r.session ∧ (decode buf).count ≠ kHeartbeat ∧ (decode buf).count ≠ kEndOfSession ∧
      r.nextSeq ≤ seq := by
  obtain ⟨buf, received, tested⟩ := Option.bind_eq_some_iff.mp fresh
  simp only at tested
  split at tested
  next passes =>
    cases tested
    exact ⟨buf, received, rfl, rfl, passes⟩
  next => cases tested

theorem freshPacket_genuine {fine : Nat → PendingPacket → Prop} {r : Receiver} {e : Recv} {seq : Nat}
    {node : PendingPacket} (genuine : Genuine fine r.session e) (fresh : freshPacket r e = some (seq, node)) :
    r.nextSeq ≤ seq ∧ fine seq node := by
  obtain ⟨buf, received, rfl, rfl, same, live, running, above⟩ := freshPacket_eq_some fresh
  exact ⟨above, genuine buf received same live running⟩

section Numbered

variable {r : Receiver} {seq : Nat} {count : UInt16} {payload : List UInt8} (id : SessionId r.session)
  (fits : seq < 2 ^ 64) (live : count ≠ kHeartbeat) (running : count ≠ kEndOfSession)
include id fits live running

theorem freshPacket_numbered :
    freshPacket r (datagram r.session seq count payload) =
      if r.nextSeq ≤ seq then some (seq, ⟨count, payload⟩) else none := by
  have header : decode (encode { session := r.session, seq := UInt64.ofNat seq, count } ++ payload) =
      { session := r.session, seq := UInt64.ofNat seq, count } := decode_encode id payload
  have rest : body (encode { session := r.session, seq := UInt64.ofNat seq, count } ++ payload) = payload :=
    body_encode id payload
  simp only [freshPacket, datagram_packet id, Option.bind_some, header, rest, datagram_seq fits, live, running,
    ne_eq, not_false_eq_true, true_and]

theorem freshPacket_datagram (above : r.nextSeq ≤ seq) :
    freshPacket r (datagram r.session seq count payload) = some (seq, ⟨count, payload⟩) := by
  rw [freshPacket_numbered id fits live running, if_pos above]

theorem freshPacket_late (late : seq < r.nextSeq) :
    freshPacket r (datagram r.session seq count payload) = none := by
  rw [freshPacket_numbered id fits live running, if_neg (Nat.not_le.mpr late)]

end Numbered

theorem poll_fresh {χ σ : Type} (ch : RequestChannel χ) (h : Handler σ) {p : Endpoint χ σ} {e : Recv}
    {seq : Nat} {node : PendingPacket} (fresh : freshPacket p.receiver e = some (seq, node)) :
    p.poll ch h e = p.accept ch h seq node.count node.payload := by
  obtain ⟨buf, received, rfl, rfl, same, live, running, -⟩ := freshPacket_eq_some fresh
  simp only [Endpoint.poll, received, Endpoint.onPacket, sameSession, same, live, running, decide_true,
    Bool.not_true, Bool.false_eq_true, if_false]

theorem buffer_nextSeq (r : Receiver) (seq : Nat) (count : UInt16) (payload : List UInt8) :
    (r.buffer seq count payload).nextSeq = r.nextSeq := by
  unfold Receiver.buffer
  split <;> rfl

theorem onReply_fresh {r : Receiver} {e : Recv} {seq : Nat} {node : PendingPacket}
    (fresh : freshPacket r e = some (seq, node)) :
    r.onReply e = ((r.buffer seq node.count node.payload).frontIs r.nextSeq,
      r.buffer seq node.count node.payload) := by
  obtain ⟨buf, received, rfl, rfl, same, live, running, above⟩ := freshPacket_eq_some fresh
  simp only [Receiver.onReply, received, sameSession, same, live, running, decide_true, Bool.not_true,
    Bool.false_eq_true, if_false, or_self, Nat.not_lt.mpr above, buffer_nextSeq]

theorem onReply_skips {r : Receiver} {e : Recv} (stale : freshPacket r e = none) :
    r.onReply e = (e.packet.isNone && e.again, r) := by
  unfold Receiver.onReply
  cases received : e.packet with
  | none => simp
  | some buf =>
    simp only [Option.isNone_some, Bool.false_and]
    split
    · rfl
    next same =>
      split
      · rfl
      next data =>
        split
        · rfl
        next above =>
          simp only [sameSession, Bool.not_eq_true', decide_eq_false_iff_not, not_not] at same
          rw [not_or] at data
          simp [freshPacket, received, same, data, Nat.le_of_not_lt above] at stale

-- The request channel has no part in it.
theorem poll_ignores {σ : Type} (h : Handler σ) {r : Receiver} {e : Recv} (stale : freshPacket r e = none) (s : σ) :
    ∃ ended, ∀ {χ : Type} (ch : RequestChannel χ) (x : χ),
      Endpoint.poll ch h ⟨r, x, s⟩ e = (0, ⟨{ r with ended }, x, s⟩) := by
  unfold Endpoint.poll
  cases received : e.packet with
  | none => exact ⟨_, fun _ _ => rfl⟩
  | some buf =>
    simp only [Endpoint.onPacket]
    split
    · exact ⟨_, fun _ _ => rfl⟩
    next same =>
      simp only [sameSession, Bool.not_eq_true', decide_eq_false_iff_not, not_not] at same
      split
      · exact ⟨_, fun _ _ => rfl⟩
      next running =>
        split
        · exact ⟨_, fun _ _ => rfl⟩
        next live =>
          have late : (decode buf).seq.toNat < r.nextSeq := by
            by_contra above
            simp [freshPacket, received, same, running, live, Nat.le_of_not_lt above] at stale
          refine ⟨r.ended, fun _ _ => ?_⟩
          rw [Endpoint.accept, if_pos late]

theorem poll_stale {χ σ : Type} (ch : RequestChannel χ) (h : Handler σ) {p : Endpoint χ σ} {e : Recv}
    (stale : freshPacket p.receiver e = none) :
    ∃ ended, (p.poll ch h e).2 = { p with receiver := { p.receiver with ended } } := by
  obtain ⟨ended, same⟩ := poll_ignores h stale p.handler
  exact ⟨ended, congrArg Prod.snd (same ch p.requests)⟩

section Runs

variable {χ σ : Type} {ch : RequestChannel χ} {h : Handler σ}

theorem drainLoop_frame (fuel : Nat) (r : Receiver) (s : σ) (frames : Nat) :
    (r.drainLoop h fuel s frames).1.session = r.session ∧ (r.drainLoop h fuel s frames).1.ended = r.ended := by
  induction fuel generalizing r s frames with
  | zero => exact ⟨rfl, rfl⟩
  | succ fuel ih =>
    simp only [Receiver.drainLoop]
    split
    · exact ⟨rfl, rfl⟩
    · split
      · exact ih ..
      · exact ⟨rfl, rfl⟩

theorem poll_session (p : Endpoint χ σ) (e : Recv) :
    (p.poll ch h e).2.receiver.session = p.receiver.session := by
  have anything : Genuine (fun _ _ => True) p.receiver.session e := fun _ _ _ _ _ => trivial
  cases fresh : freshPacket p.receiver e with
  | none =>
    obtain ⟨ended, same⟩ := poll_stale ch h fresh
    rw [same]
  | some entry =>
    have above := (freshPacket_genuine anything fresh).1
    have filled : Filled (fun _ _ => True) p.receiver
        (p.beforeDrain ch entry.1 entry.2.count entry.2.payload).1 :=
      beforeDrain_filled above trivial fun _ _ _ _ _ _ _ _ _ => trivial
    rw [poll_fresh ch h fresh, Endpoint.accept, if_neg (Nat.not_lt.mpr above)]
    exact (drainLoop_frame ..).1.trans filled.session

theorem poll_ended (p : Endpoint χ σ) {e : Recv}
    (data : ∀ buf, e.packet = some buf → (decode buf).count ≠ kEndOfSession) :
    (p.poll ch h e).2.receiver.ended = p.receiver.ended := by
  unfold Endpoint.poll
  cases received : e.packet with
  | none => rfl
  | some buf =>
    have filled (seq : Nat) (count : UInt16) (payload : List UInt8) (low : p.receiver.nextSeq ≤ seq) :
        Filled (fun _ _ => True) p.receiver (p.beforeDrain ch seq count payload).1 :=
      beforeDrain_filled low trivial fun _ _ _ _ _ _ _ _ _ => trivial
    simp only [Endpoint.onPacket, data buf received, if_false]
    split
    · rfl
    · split
      · rfl
      · unfold Endpoint.accept
        split
        · rfl
        next fresh => exact (drainLoop_frame ..).2.trans (filled _ _ _ (Nat.le_of_not_lt fresh)).ended

theorem run_append (p : Endpoint χ σ) (arrived : List Recv) (e : Recv) :
    p.run ch h (arrived ++ [e]) = ((p.run ch h arrived).poll ch h e).2 := by
  simp [Endpoint.run]

theorem run_invariant {fine : Nat → PendingPacket → Prop} (p : Endpoint χ σ) (holds : Endpoint χ σ → Prop)
    {arrived : List Recv} (genuine : ∀ e ∈ arrived, Genuine fine p.receiver.session e) (initial : holds p)
    (keeps : ∀ q e, q.receiver.session = p.receiver.session → holds q →
      Genuine fine q.receiver.session e → holds (q.poll ch h e).2) :
    (p.run ch h arrived).receiver.session = p.receiver.session ∧ holds (p.run ch h arrived) := by
  induction arrived using List.reverseRecOn with
  | nil => exact ⟨rfl, initial⟩
  | append_singleton arrived e ih =>
    obtain ⟨session, held⟩ := ih fun e' inside => genuine e' (by simp [inside])
    rw [run_append, poll_session]
    exact ⟨session, keeps _ e session held (session ▸ genuine e (by simp))⟩

end Runs

end ItchLob.Net
