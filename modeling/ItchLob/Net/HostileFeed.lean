import ItchLob.Net.ReorderBuffer

set_option autoImplicit false

namespace ItchLob.Net

open Itch hiding decode
open FiniteMap MoldUdp64 Framing

def frameCount (node : PendingPacket) : Nat := (frames node.payload).length

def fedFrames (fed : List (Nat × PendingPacket)) : List (List UInt8) := fed.flatMap fun q => frames q.2.payload

def numberAfter (next : Nat) (fed : List (Nat × PendingPacket)) : Nat :=
  fed.foldl (fun n q => (n + frameCount q.2) % 2 ^ 64) next

def InStep : Nat → List (Nat × PendingPacket) → Prop
  | _, [] => True
  | next, (seq, node) :: rest => seq = next ∧ InStep ((next + frameCount node) % 2 ^ 64) rest

def miscounted (fed : List (Nat × PendingPacket)) : Nat :=
  (fed.filter fun q => frameCount q.2 ≠ q.2.count.toNat).length

theorem inStep_append (next : Nat) (fed more : List (Nat × PendingPacket)) :
    InStep next (fed ++ more) ↔ InStep next fed ∧ InStep (numberAfter next fed) more := by
  induction fed generalizing next with
  | nil => simp [InStep, numberAfter]
  | cons q rest ih => simp [InStep, numberAfter, ih, and_assoc]

theorem numberAfter_append (next : Nat) (fed more : List (Nat × PendingPacket)) :
    numberAfter next (fed ++ more) = numberAfter (numberAfter next fed) more := List.foldl_append

theorem fedFrames_append (fed more : List (Nat × PendingPacket)) :
    fedFrames (fed ++ more) = fedFrames fed ++ fedFrames more := List.flatMap_append

theorem miscounted_append (fed more : List (Nat × PendingPacket)) :
    miscounted (fed ++ more) = miscounted fed + miscounted more := by
  rw [miscounted, List.filter_append, List.length_append, miscounted, miscounted]

theorem numberAfter_eq {next : Nat} (fits : next < 2 ^ 64) (fed : List (Nat × PendingPacket)) :
    numberAfter next fed = (next + (fedFrames fed).length) % 2 ^ 64 := by
  induction fed generalizing next with
  | nil => exact (Nat.mod_eq_of_lt fits).symm
  | cons q rest ih =>
    have split : (fedFrames (q :: rest)).length = frameCount q.2 + (fedFrames rest).length := by
      rw [fedFrames, List.flatMap_cons, List.length_append]
      rfl
    change numberAfter ((next + frameCount q.2) % 2 ^ 64) rest = _
    rw [ih (Nat.mod_lt _ (by decide)), Nat.mod_add_mod, split, Nat.add_assoc]

section Feeds

variable {σ : Type} (h : Handler σ)

/-- From one receiver and handler to another by feeding these packets; `n` frames are
counted on the way. -/
structure Feeds (r : Receiver) (s : σ) (r' : Receiver) (s' : σ) (n : Nat) (fed : List (Nat × PendingPacket)) :
    Prop where
  inStep : InStep r.nextSeq fed
  nextSeq : r'.nextSeq = numberAfter r.nextSeq fed
  handler : s' = feed h s (fedFrames fed)
  counted : n = (fedFrames fed).length
  mismatches : r'.countMismatches = r.countMismatches + miscounted fed

variable {h}

theorem Feeds.trans {r r' r'' : Receiver} {s s' s'' : σ} {n m : Nat} {fed more : List (Nat × PendingPacket)}
    (first : Feeds h r s r' s' n fed) (second : Feeds h r' s' r'' s'' m more) :
    Feeds h r s r'' s'' (n + m) (fed ++ more) where
  inStep := (inStep_append ..).mpr ⟨first.inStep, first.nextSeq ▸ second.inStep⟩
  nextSeq := by rw [second.nextSeq, first.nextSeq, numberAfter_append]
  handler := by rw [second.handler, first.handler, fedFrames_append, feed_append]
  counted := by rw [second.counted, first.counted, fedFrames_append, List.length_append]
  mismatches := by rw [second.mismatches, first.mismatches, miscounted_append, Nat.add_assoc]

theorem drainOne_feeds (r : Receiver) (s : σ) (node : PendingPacket) :
    Feeds h r s (r.drainOne r.nextSeq node (parseStream h node.payload s).2) (parseStream h node.payload s).1
      (parseStream h node.payload s).2 [(r.nextSeq, node)] := by
  rw [parseStream_feed]
  refine ⟨⟨rfl, trivial⟩, rfl, by simp [fedFrames], by simp [fedFrames], ?_⟩
  by_cases agrees : (frames node.payload).length = node.count.toNat <;>
    simp [Receiver.drainOne, miscounted, frameCount, agrees]

theorem drainLoop_feeds (fuel : Nat) (r : Receiver) (s : σ) (base : Nat) :
    ∃ n fed, (r.drainLoop h fuel s base).2.2 = base + n ∧
      Feeds h r s (r.drainLoop h fuel s base).1 (r.drainLoop h fuel s base).2.1 n fed ∧
      ∀ q ∈ fed, r.pending.lookup q.1 = some q.2 := by
  have nothing : Feeds h r s r s 0 [] := ⟨trivial, rfl, rfl, rfl, rfl⟩
  induction fuel generalizing r s base with
  | zero => exact ⟨0, [], rfl, nothing, fun q member => (by cases member)⟩
  | succ fuel ih =>
    simp only [Receiver.drainLoop]
    split
    · exact ⟨0, [], rfl, nothing, fun q member => (by cases member)⟩
    next front node found =>
      split
      next here =>
        subst here
        have resting := (first_eq_some.mp found).1
        obtain ⟨n, fed, returned, feeds, held⟩ :=
          ih (r.drainOne r.nextSeq node (parseStream h node.payload s).2) (parseStream h node.payload s).1
            (base + (parseStream h node.payload s).2) ⟨trivial, rfl, rfl, rfl, rfl⟩
        refine ⟨_, _, ?_, (drainOne_feeds r s node).trans feeds, fun q member => ?_⟩
        · rw [returned, Nat.add_assoc]
        · rcases List.mem_append.mp member with first | later
          · rw [List.mem_singleton.mp first]
            exact resting
          · exact found_erase (held q later)
      next => exact ⟨0, [], rfl, nothing, fun q member => (by cases member)⟩

end Feeds

structure Tallied (k : Nat) (r r' : Receiver) : Prop where
  mismatches : r'.countMismatches = r.countMismatches
  requests : r'.requestsSent ≤ r.requestsSent + k

namespace Tallied

variable {r r' r'' : Receiver} {k l : Nat}

theorem trans (first : Tallied k r r') (second : Tallied l r' r'') : Tallied (k + l) r r'' := by
  refine ⟨second.mismatches.trans first.mismatches, ?_⟩
  have step := first.requests
  have next := second.requests
  omega

theorem buffer (r : Receiver) (seq : Nat) (count : UInt16) (payload : List UInt8) :
    Tallied 0 r (r.buffer seq count payload) := by
  rw [Receiver.buffer]
  split
  · exact ⟨rfl, Nat.le_refl _⟩
  · exact ⟨rfl, Nat.le_refl _⟩

theorem onReply (r : Receiver) (e : Recv) : Tallied 0 r (r.onReply e).2 := by
  cases fresh : freshPacket r e with
  | none =>
    rw [onReply_skips fresh]
    exact ⟨rfl, Nat.le_refl _⟩
  | some entry =>
    rw [onReply_fresh fresh]
    exact buffer ..

theorem awaitReplies (r : Receiver) (replies : List Recv) : Tallied 0 r (r.awaitReplies replies).1 := by
  induction replies generalizing r with
  | nil => exact ⟨rfl, Nat.le_refl _⟩
  | cons e rest ih =>
    simp only [Receiver.awaitReplies]
    split
    · exact onReply r e
    · exact (onReply r e).trans (ih _)

theorem resolveLoop {χ : Type} (ch : RequestChannel χ) (attempts : Nat) (r : Receiver) (x : χ) :
    Tallied attempts r (r.resolveLoop ch attempts x).1 := by
  induction attempts generalizing r x with
  | zero => exact ⟨rfl, Nat.le_refl _⟩
  | succ attempts ih =>
    simp only [Receiver.resolveLoop]
    split
    · exact ⟨rfl, Nat.le_add_right _ _⟩
    next front node found =>
      split
      next gap =>
        have asked : Tallied 1 r { r with requestsSent := r.requestsSent + 1 } := ⟨rfl, Nat.le_refl _⟩
        have turn := asked.trans (awaitReplies _ (ch.arrivals x (r.request front)))
        refine ⟨(ih ..).mismatches.trans turn.mismatches, (ih ..).requests.trans ?_⟩
        have sent := turn.requests
        omega
      next => exact ⟨rfl, Nat.le_add_right _ _⟩

end Tallied

section Polls

variable {χ σ : Type} (ch : RequestChannel χ) (h : Handler σ)

def Arrived (session : List UInt8) (arrived : List Recv) (seq : Nat) (node : PendingPacket) : Prop :=
  ∃ e buf, (e ∈ arrived ∨ ∃ x sent, e ∈ ch.arrivals x sent) ∧ e.packet = some buf ∧
    (decode buf).session = session ∧ (decode buf).count ≠ kHeartbeat ∧ (decode buf).count ≠ kEndOfSession ∧
    seq = (decode buf).seq.toNat ∧ node = ⟨(decode buf).count, body buf⟩

def closes (session : List UInt8) (e : Recv) : Bool :=
  e.packet.any fun buf => sameSession (decode buf).session session && (decode buf).count == kEndOfSession

def tally (p : Endpoint χ σ) (arrived : List Recv) : Nat × Endpoint χ σ :=
  arrived.foldl (fun t e => (t.1 + (t.2.poll ch h e).1, (t.2.poll ch h e).2)) (0, p)

variable {ch h}

theorem Arrived.more {session : List UInt8} {arrived : List Recv} {seq : Nat} {node : PendingPacket}
    (there : Arrived ch session arrived seq node) (e : Recv) : Arrived ch session (arrived ++ [e]) seq node := by
  obtain ⟨e', buf, source, rest⟩ := there
  exact ⟨e', buf, source.imp_left (List.mem_append_left _), rest⟩

theorem tally_run (p : Endpoint χ σ) (arrived : List Recv) : (tally ch h p arrived).2 = p.run ch h arrived := by
  induction arrived using List.reverseRecOn with
  | nil => rfl
  | append_singleton arrived e ih =>
    rw [run_append, ← ih, tally, List.foldl_append]
    rfl

theorem tally_snoc (p : Endpoint χ σ) (arrived : List Recv) (e : Recv) :
    (tally ch h p (arrived ++ [e])).1 = (tally ch h p arrived).1 + ((p.run ch h arrived).poll ch h e).1 := by
  rw [← tally_run, tally, List.foldl_append]
  rfl

theorem beforeDrain_keeps (p : Endpoint χ σ) {seq : Nat} (count : UInt16) (payload : List UInt8)
    (above : p.receiver.nextSeq ≤ seq) :
    Filled (fun _ _ => True) p.receiver (p.beforeDrain ch seq count payload).1 :=
  beforeDrain_filled above trivial fun _ _ _ _ _ _ _ _ _ => trivial

theorem beforeDrain_tallied (p : Endpoint χ σ) (seq : Nat) (count : UInt16) (payload : List UInt8) :
    Tallied kMaxGapFillAttempts p.receiver (p.beforeDrain ch seq count payload).1 := by
  have tallied := (Tallied.buffer p.receiver seq count payload).trans
    (Tallied.resolveLoop ch kMaxGapFillAttempts _ p.requests)
  rwa [Nat.zero_add] at tallied

theorem poll_closes (p : Endpoint χ σ) (e : Recv) :
    (p.poll ch h e).2.receiver.ended = (p.receiver.ended || closes p.receiver.session e) := by
  rw [Endpoint.poll, closes]
  cases received : e.packet with
  | none => simp
  | some buf =>
    simp only [Option.any_some, Endpoint.onPacket]
    split
    next other =>
      rw [Bool.not_eq_true'] at other
      simp [other]
    next same =>
      rw [Bool.not_eq_true, Bool.not_eq_false'] at same
      split
      next ends => simp [same, ends]
      next running =>
        have open' : p.receiver.ended = (p.receiver.ended || (sameSession (decode buf).session p.receiver.session &&
            (decode buf).count == kEndOfSession)) := by simp [running]
        rw [← open']
        split
        · rfl
        · rw [Endpoint.accept]
          split
          · rfl
          next fresh =>
            exact (drainLoop_frame ..).2.trans (beforeDrain_keeps p _ _ (Nat.le_of_not_lt fresh)).ended

variable {fine : Nat → PendingPacket → Prop} {p : Endpoint χ σ} {e : Recv}

theorem poll_feeds (replies : ch.Genuine fine p.receiver.session) (genuine : Genuine fine p.receiver.session e)
    (buffers : Buffers fine p.receiver) :
    ∃ fed, Feeds h p.receiver p.handler (p.poll ch h e).2.receiver (p.poll ch h e).2.handler (p.poll ch h e).1 fed ∧
      ∀ q ∈ fed, fine q.1 q.2 := by
  cases fresh : freshPacket p.receiver e with
  | none =>
    obtain ⟨ended, same⟩ := poll_ignores h fresh p.handler
    have plain : p.poll ch h e = _ := same ch p.requests
    rw [plain]
    exact ⟨[], ⟨trivial, rfl, rfl, rfl, rfl⟩, fun q member => (by cases member)⟩
  | some entry =>
    obtain ⟨above, carries⟩ := freshPacket_genuine genuine fresh
    have filled := beforeDrain_filled (p := p) above carries replies
    obtain ⟨n, fed, returned, feeds, held⟩ := drainLoop_feeds (h := h) (size _)
      (p.beforeDrain ch entry.1 entry.2.count entry.2.payload).1 p.handler 0
    rw [poll_fresh ch h fresh, Endpoint.accept, if_neg (Nat.not_lt.mpr above)]
    refine ⟨fed, ⟨filled.nextSeq ▸ feeds.inStep, filled.nextSeq ▸ feeds.nextSeq, feeds.handler, ?_, ?_⟩, ?_⟩
    · rw [← feeds.counted]
      exact returned.trans (Nat.zero_add n)
    · exact feeds.mismatches.trans (congrArg (· + miscounted fed) (beforeDrain_tallied ..).mismatches)
    · exact fun q member => buffers.filled filled q.1 q.2 (held q member)

theorem drainLoop_bounds (fuel : Nat) (r : Receiver) (s : σ) (frames : Nat) :
    (r.drainLoop h fuel s frames).1.requestsSent = r.requestsSent ∧
      size (r.drainLoop h fuel s frames).1.pending ≤ size r.pending := by
  induction fuel generalizing r s frames with
  | zero => exact ⟨rfl, Nat.le_refl _⟩
  | succ fuel ih =>
    simp only [Receiver.drainLoop]
    split
    · exact ⟨rfl, Nat.le_refl _⟩
    next front node found =>
      split
      next =>
        have smaller := size_erase (first_eq_some.mp found).1
        obtain ⟨requests, bound⟩ := ih (r.drainOne front node (parseStream h node.payload s).2)
          (parseStream h node.payload s).1 (frames + (parseStream h node.payload s).2)
        refine ⟨requests, bound.trans ?_⟩
        change size (r.pending.erase front) ≤ size r.pending
        omega
      next => exact ⟨rfl, Nat.le_refl _⟩

variable (ch h) in
theorem poll_bounds (p : Endpoint χ σ) (e : Recv) :
    (p.poll ch h e).2.receiver.requestsSent ≤ p.receiver.requestsSent + kMaxGapFillAttempts ∧
      (size p.receiver.pending ≤ kMaxPendingPackets →
        size (p.poll ch h e).2.receiver.pending ≤ kMaxPendingPackets) := by
  have anything : Genuine (fun _ _ => True) p.receiver.session e := fun _ _ _ _ _ => trivial
  cases fresh : freshPacket p.receiver e with
  | none =>
    obtain ⟨ended, same⟩ := poll_stale ch h fresh
    rw [same]
    exact ⟨Nat.le_add_right _ _, id⟩
  | some entry =>
    have above := (freshPacket_genuine anything fresh).1
    obtain ⟨requests, smaller⟩ := drainLoop_bounds (h := h) (size _)
      (p.beforeDrain ch entry.1 entry.2.count entry.2.payload).1 p.handler 0
    rw [poll_fresh ch h fresh, Endpoint.accept, if_neg (Nat.not_lt.mpr above)]
    exact ⟨requests.le.trans (beforeDrain_tallied ..).requests,
      fun small => smaller.trans ((beforeDrain_keeps p _ _ above).capped small)⟩

/-- What is left of any bytes: packets of the session that came in with the number the
receiver was at, fed whole and in that order, and bounded counts of everything else. -/
structure Withstood (ch : RequestChannel χ) (h : Handler σ) (session : List UInt8) (s : σ) (arrived : List Recv)
    (returned : Nat) (p : Endpoint χ σ) (fed : List (Nat × PendingPacket)) : Prop where
  genuine : ∀ q ∈ fed, Arrived ch session arrived q.1 q.2
  inStep : InStep 1 fed
  handler : p.handler = feed h s (fedFrames fed)
  nextSeq : p.receiver.nextSeq = (1 + (fedFrames fed).length) % 2 ^ 64
  returned : returned = (fedFrames fed).length
  mismatches : p.receiver.countMismatches = miscounted fed
  capped : p.receiver.pendingCount ≤ kMaxPendingPackets
  requests : p.receiver.requestsSent ≤ kMaxGapFillAttempts * arrived.length
  ended : p.receiver.ended = arrived.any (closes session)

structure Withstanding (ch : RequestChannel χ) (h : Handler σ) (session : List UInt8) (s : σ)
    (arrived : List Recv) (returned : Nat) (p : Endpoint χ σ) (fed : List (Nat × PendingPacket)) : Prop where
  feeds : Feeds h { session } s p.receiver p.handler returned fed
  genuine : ∀ q ∈ fed, Arrived ch session arrived q.1 q.2
  buffers : Buffers (Arrived ch session arrived) p.receiver
  capped : size p.receiver.pending ≤ kMaxPendingPackets
  requests : p.receiver.requestsSent ≤ kMaxGapFillAttempts * arrived.length
  ended : p.receiver.ended = arrived.any (closes session)
  session : p.receiver.session = session

namespace Withstanding

variable {session : List UInt8} {x : χ} {s : σ} {arrived : List Recv} {n : Nat} {p : Endpoint χ σ}
  {fed : List (Nat × PendingPacket)}

theorem start : Withstanding ch h session s [] 0 ⟨{ session }, x, s⟩ [] where
  feeds := ⟨trivial, rfl, rfl, rfl, rfl⟩
  genuine := fun q member => (by cases member)
  buffers := fun k q found => (by cases found)
  capped := Nat.zero_le _
  requests := Nat.zero_le _
  ended := rfl
  session := rfl

theorem poll (so : Withstanding ch h session s arrived n p fed) (e : Recv) :
    ∃ more, Withstanding ch h session s (arrived ++ [e]) (n + (p.poll ch h e).1) (p.poll ch h e).2
      (fed ++ more) := by
  have replies : ch.Genuine (Arrived ch session (arrived ++ [e])) p.receiver.session :=
    fun x sent e' inside buf received same live running =>
      ⟨e', buf, .inr ⟨x, sent, inside⟩, received, same.trans so.session, live, running, rfl, rfl⟩
  have here : Genuine (Arrived ch session (arrived ++ [e])) p.receiver.session e :=
    fun buf received same live running =>
      ⟨e, buf, .inl (by simp), received, same.trans so.session, live, running, rfl, rfl⟩
  have held : Buffers (Arrived ch session (arrived ++ [e])) p.receiver :=
    fun k q found => (so.buffers k q found).more e
  obtain ⟨more, next, carried⟩ := poll_feeds (h := h) replies here held
  obtain ⟨sent, room⟩ := poll_bounds ch h p e
  refine ⟨more, so.feeds.trans next, fun q member => ?_, poll_buffers replies here held, room so.capped, ?_, ?_,
    (poll_session p e).trans so.session⟩
  · rcases List.mem_append.mp member with old | new
    · exact (so.genuine q old).more e
    · exact carried q new
  · have before := so.requests
    rw [List.length_append, List.length_singleton, Nat.mul_add]
    omega
  · rw [poll_closes, so.ended, so.session, List.any_append]
    simp

variable (ch h session x s) in
theorem run (arrived : List Recv) :
    ∃ fed, Withstanding ch h session s arrived (tally ch h ⟨{ session }, x, s⟩ arrived).1
      (Endpoint.run ch h ⟨{ session }, x, s⟩ arrived) fed := by
  induction arrived using List.reverseRecOn with
  | nil => exact ⟨[], start⟩
  | append_singleton arrived e ih =>
    obtain ⟨fed, so⟩ := ih
    obtain ⟨more, next⟩ := so.poll e
    rw [run_append, tally_snoc]
    exact ⟨fed ++ more, next⟩

theorem withstood (so : Withstanding ch h session s arrived n p fed) :
    Withstood ch h session s arrived n p fed where
  genuine := so.genuine
  inStep := so.feeds.inStep
  handler := so.feeds.handler
  nextSeq := so.feeds.nextSeq.trans (numberAfter_eq (show 1 < 2 ^ 64 by decide) fed)
  returned := so.feeds.counted
  mismatches := so.feeds.mismatches.trans (Nat.zero_add _)
  capped := so.capped
  requests := so.requests
  ended := so.ended

end Withstanding

end Polls

/-- Whatever arrives on either channel, the receiver stays within its bounds and its
handler, its next number and its counters are those of the packets it fed. -/
theorem hostile_feed_in_step {χ σ : Type} (ch : RequestChannel χ) (h : Handler σ) (session : List UInt8) (x : χ)
    (s : σ) (arrived : List Recv) :
    ∃ fed, Withstood ch h session s arrived (tally ch h ⟨{ session }, x, s⟩ arrived).1
      (Endpoint.run ch h ⟨{ session }, x, s⟩ arrived) fed := by
  obtain ⟨fed, so⟩ := Withstanding.run ch h session x s arrived
  exact ⟨fed, so.withstood⟩

end ItchLob.Net
