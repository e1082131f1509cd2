import ItchLob.Net.Receiver

set_option autoImplicit false

namespace ItchLob.Net

open Itch hiding decode
open FiniteMap MoldUdp64 Framing

def messages (m : Nat → List UInt8) (s k : Nat) : List (List UInt8) :=
  (List.range k).map fun i => m (s + i)

/-- A packet with sequence number s holds the messages from s on, cut anywhere.
The number after its last message is the one the next packet starts with, so
it fits the 64-bit field too. -/
def Carries (m : Nat → List UInt8) (s : Nat) (p : PendingPacket) : Prop :=
  1 ≤ s → ∃ k, s + k < 2 ^ 64 ∧ p.payload <+: stream (messages m s k)

-- The same with no bound: the messages may reach past the last number there is.
def CarriesAny (m : Nat → List UInt8) (s : Nat) (p : PendingPacket) : Prop :=
  1 ≤ s → ∃ k, p.payload <+: stream (messages m s k)

def feed {σ : Type} (h : Handler σ) (s : σ) (frames : List (List UInt8)) : σ :=
  frames.foldl (fun s f => h (event f) s) s

section Stream

variable {m : Nat → List UInt8}

theorem messages_length (m : Nat → List UInt8) (s k : Nat) : (messages m s k).length = k := by
  simp [messages]

theorem messages_append (m : Nat → List UInt8) (s j k : Nat) :
    messages m s j ++ messages m (s + j) k = messages m s (j + k) := by
  simp only [messages, List.range_add, List.map_append, List.map_map, Function.comp_def, Nat.add_assoc]

theorem messages_take (m : Nat → List UInt8) (s : Nat) {j k : Nat} (le : j ≤ k) :
    (messages m s k).take j = messages m s j := by
  obtain ⟨rest, rfl⟩ := Nat.exists_eq_add_of_le le
  rw [← messages_append]
  conv => lhs; arg 1; rw [← messages_length m s j]
  exact List.take_left

theorem messages_framable (framable : ∀ i, 1 ≤ i → Framable (m i)) {s : Nat} (positive : 1 ≤ s) (k : Nat) :
    ∀ f ∈ messages m s k, Framable f := by
  intro f inside
  obtain ⟨i, -, rfl⟩ := List.mem_map.mp inside
  exact framable _ (by omega)

theorem feed_append {σ : Type} (h : Handler σ) (s : σ) (first second : List (List UInt8)) :
    feed h s (first ++ second) = feed h (feed h s first) second := List.foldl_append ..

theorem parseStream_feed {σ : Type} (h : Handler σ) (payload : List UInt8) (s : σ) :
    parseStream h payload s = (feed h s (frames payload), (frames payload).length) := by
  rw [parseStream_events, events, List.foldl_map, List.length_map, feed]

theorem Carries.parsed {σ : Type} {s : Nat} {p : PendingPacket} (carries : Carries m s p)
    (framable : ∀ i, 1 ≤ i → Framable (m i)) (positive : 1 ≤ s) (h : Handler σ) (start : σ) :
    ∃ j, s + j < 2 ^ 64 ∧ parseStream h p.payload start = (feed h start (messages m s j), j) := by
  obtain ⟨k, fits, before⟩ := carries positive
  obtain ⟨j, le, split⟩ := frames_cut _ (messages_framable framable positive k) _ before
  rw [messages_length] at le
  rw [messages_take m s le] at split
  refine ⟨j, by omega, ?_⟩
  rw [parseStream_feed, split, messages_length]

end Stream

section Delivery

variable {χ σ : Type} (h : Handler σ) (m : Nat → List UInt8) (start : σ)

structure Delivers (r : Receiver) (s : σ) : Prop where
  positive : 1 ≤ r.nextSeq
  fits : r.nextSeq < 2 ^ 64
  capped : size r.pending ≤ kMaxPendingPackets
  pending : ∀ k p, r.pending.lookup k = some p → Carries m k p
  handed : s = feed h start (messages m 1 (r.nextSeq - 1))

variable {h m start} {ch : RequestChannel χ} {r r' : Receiver} {s : σ}

theorem Delivers.filled (delivers : Delivers h m start r s) (filled : Filled (Carries m) r r') :
    Delivers h m start r' s where
  positive := filled.nextSeq ▸ delivers.positive
  fits := filled.nextSeq ▸ delivers.fits
  capped := filled.capped delivers.capped
  pending k p found := (filled.entries k p found).elim (delivers.pending k p) And.right
  handed := filled.nextSeq ▸ delivers.handed

theorem Delivers.drainOne (delivers : Delivers h m start r s) (framable : ∀ i, 1 ≤ i → Framable (m i))
    {node : PendingPacket} (found : r.pending.lookup r.nextSeq = some node) :
    let out := parseStream h node.payload s
    Delivers h m start (r.drainOne r.nextSeq node out.2) out.1 ∧
      r.nextSeq ≤ (r.drainOne r.nextSeq node out.2).nextSeq := by
  obtain ⟨positive, fits, capped, pending, handed⟩ := delivers
  obtain ⟨j, bound, parsed⟩ := (pending _ _ found).parsed framable positive h s
  have next : (r.nextSeq + j) % 2 ^ 64 = r.nextSeq + j := Nat.mod_eq_of_lt bound
  have smaller := size_erase found
  rw [parsed]
  simp only [Receiver.drainOne, next]
  refine ⟨⟨?_, bound, ?_, fun k p there => ?_, ?_⟩, Nat.le_add_right _ _⟩
  · change 1 ≤ r.nextSeq + j
    omega
  · change size (r.pending.erase r.nextSeq) ≤ _
    omega
  · exact pending k p (found_erase there)
  · change feed h s (messages m r.nextSeq j) = feed h start (messages m 1 (r.nextSeq + j - 1))
    rw [handed, ← feed_append, show r.nextSeq + j - 1 = r.nextSeq - 1 + j by omega, ← messages_append,
      Nat.add_sub_cancel' positive]

theorem Delivers.drainLoop (framable : ∀ i, 1 ≤ i → Framable (m i)) (fuel : Nat) (frames : Nat)
    (delivers : Delivers h m start r s) :
    Delivers h m start (r.drainLoop h fuel s frames).1 (r.drainLoop h fuel s frames).2.1 ∧
      r.nextSeq ≤ (r.drainLoop h fuel s frames).1.nextSeq := by
  induction fuel generalizing r s frames with
  | zero => exact ⟨delivers, Nat.le_refl _⟩
  | succ fuel ih =>
    simp only [Receiver.drainLoop]
    cases front : first r.pending with
    | none => exact ⟨delivers, Nat.le_refl _⟩
    | some entry =>
      simp only
      split
      next here =>
        have found := (first_eq_some.mp front).1
        rw [here] at found ⊢
        obtain ⟨after, grows⟩ := delivers.drainOne framable found
        obtain ⟨final, further⟩ := ih (frames + (parseStream h entry.2.payload s).2) after
        exact ⟨final, grows.trans further⟩
      next => exact ⟨delivers, Nat.le_refl _⟩

theorem poll_delivers {p : Endpoint χ σ} (framable : ∀ i, 1 ≤ i → Framable (m i))
    (replies : ch.Genuine (Carries m) p.receiver.session)
    (delivers : Delivers h m start p.receiver p.handler) {e : Recv}
    (genuine : Genuine (Carries m) p.receiver.session e) :
    Delivers h m start (p.poll ch h e).2.receiver (p.poll ch h e).2.handler ∧
      p.receiver.nextSeq ≤ (p.poll ch h e).2.receiver.nextSeq := by
  cases fresh : freshPacket p.receiver e with
  | none =>
    obtain ⟨ended, same⟩ := poll_stale ch h fresh
    rw [same]
    exact ⟨⟨delivers.positive, delivers.fits, delivers.capped, delivers.pending, delivers.handed⟩,
      Nat.le_refl _⟩
  | some entry =>
    obtain ⟨above, carries⟩ := freshPacket_genuine genuine fresh
    have filled : Filled (Carries m) p.receiver
        (p.beforeDrain ch entry.1 entry.2.count entry.2.payload).1 :=
      beforeDrain_filled above carries replies
    rw [poll_fresh ch h fresh, Endpoint.accept, if_neg (Nat.not_lt.mpr above)]
    obtain ⟨final, grows⟩ := (delivers.filled filled).drainLoop framable
      (size (p.beforeDrain ch entry.1 entry.2.count entry.2.payload).1.pending) 0
    exact ⟨final, filled.nextSeq ▸ grows⟩

end Delivery

/-- In-order, exactly-once delivery: whatever arrives on the two channels, after
every poll the handler has seen exactly the messages before next_seq, once each
and in order. -/
theorem delivers_in_order {χ σ : Type} (ch : RequestChannel χ) (h : Handler σ) (m : Nat → List UInt8)
    (framable : ∀ i, 1 ≤ i → Framable (m i)) (session : List UInt8) (x : χ) (start : σ)
    (replies : ch.Genuine (Carries m) session) (arrived : List Recv)
    (genuine : ∀ e ∈ arrived, Genuine (Carries m) session e) :
    let p := Endpoint.run ch h ⟨{ session }, x, start⟩ arrived
    p.handler = feed h start (messages m 1 (p.receiver.nextSeq - 1)) ∧
      1 ≤ p.receiver.nextSeq ∧
      p.receiver.pendingCount ≤ kMaxPendingPackets ∧
      ∀ e, Genuine (Carries m) session e → p.receiver.nextSeq ≤ (p.poll ch h e).2.receiver.nextSeq := by
  intro p
  have initial : Delivers h m start ({ session } : Receiver) start := by
    refine ⟨Nat.le_refl 1, show 1 < 2 ^ 64 by decide, Nat.zero_le _, fun k p found => ?_, rfl⟩
    cases found
  have ran : p.receiver.session = session ∧ Delivers h m start p.receiver p.handler :=
    run_invariant ⟨{ session }, x, start⟩ (fun q => Delivers h m start q.receiver q.handler) genuine initial
      fun q e same held fresh => (poll_delivers framable (same ▸ replies) held fresh).1
  obtain ⟨same, delivers⟩ := ran
  refine ⟨delivers.handed, delivers.positive, delivers.capped, fun e fresh => ?_⟩
  exact (poll_delivers framable (same ▸ replies) delivers (same ▸ fresh)).2

-- Message 2 overtakes message 1, message 1 comes twice, and no request is answered.
theorem delivers_in_order_reordered :
    let session : List UInt8 := List.replicate 10 32
    let silent : RequestChannel Unit := ⟨fun _ _ => [], fun x _ _ => x⟩
    let m : Nat → List UInt8 := fun i => [65, UInt8.ofNat i]
    let arrived := [2, 1, 1].map fun seq => datagram session seq 1 (frame (m seq))
    let p := Endpoint.run silent (fun e seen => seen ++ [e]) ⟨{ session }, (), []⟩ arrived
    p.receiver.nextSeq = 3 ∧
      p.handler = feed (fun e seen => seen ++ [e]) [] (messages m 1 (p.receiver.nextSeq - 1)) := by
  intro session silent m arrived p
  have framable (i : Nat) (_ : 1 ≤ i) : Framable (m i) := ⟨by simp [m], by simp [m]⟩
  have genuine (seq : Nat) (fits : seq + 1 < 2 ^ 64) :
      Genuine (Carries m) session (datagram session seq 1 (frame (m seq))) :=
    genuine_datagram rfl (by omega) fun _ => ⟨1, fits, by simp [messages]⟩
  have law := delivers_in_order silent (fun e seen => seen ++ [e]) m framable session () []
    (fun _ _ _ inside => nomatch inside) arrived (by
      intro e inside
      simp only [arrived, List.map_cons, List.map_nil, List.mem_cons, List.not_mem_nil, or_false] at inside
      rcases inside with rfl | rfl | rfl
      · exact genuine 2 (by decide)
      · exact genuine 1 (by decide)
      · exact genuine 1 (by decide))
  exact ⟨by decide +kernel, law.1⟩

end ItchLob.Net
