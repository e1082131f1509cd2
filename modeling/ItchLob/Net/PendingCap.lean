import ItchLob.Net.ReorderBuffer

set_option autoImplicit false

namespace ItchLob.Net

open Itch hiding decode
open FiniteMap MoldUdp64 Framing

def Single (m : Nat → List UInt8) (s : Nat) (p : PendingPacket) : Prop := Exact m s p ∧ p.count.toNat = 1

theorem single_frame (m : Nat → List UInt8) {i : Nat} (positive : 1 ≤ i) (fits : i + 1 < 2 ^ 64) :
    Single m i ⟨1, frame (m i)⟩ := by
  have one : (1 : UInt16).toNat = 1 := rfl
  refine ⟨⟨positive, Nat.le_of_eq one.symm, fits, ?_⟩, one⟩
  simp [messages]

namespace Receiver

def repliesRead : Receiver → List Recv → List (Receiver × Recv)
  | _, [] => []
  | r, e :: rest =>
    let turn := r.onReply e
    (r, e) :: if turn.1 then [] else repliesRead turn.2 rest

def resolveReads {χ : Type} (ch : RequestChannel χ) : Nat → Receiver → χ → List (Receiver × Recv)
  | 0, _, _ => []
  | attempts + 1, r, x =>
    match first r.pending with
    | none => []
    | some (front, _) =>
      if r.nextSeq < front then
        let sent := r.request front
        let sending := { r with requestsSent := r.requestsSent + 1 }
        let turn := awaitReplies sending (ch.arrivals x sent)
        repliesRead sending (ch.arrivals x sent) ++ resolveReads ch attempts turn.1 (ch.after x sent turn.2)
      else []

end Receiver

section Cap

variable {m : Nat → List UInt8} {r mid : Receiver} {e : Recv}

structure Wedged (r : Receiver) : Prop where
  full : kMaxPendingPackets ≤ size r.pending
  absent : r.pending.lookup r.nextSeq = none

theorem Wedged.buffer (wedged : Wedged r) (seq : Nat) (count : UInt16) (payload : List UInt8) :
    Wedged (r.buffer seq count payload) := by
  unfold Receiver.buffer
  split
  · exact ⟨wedged.full, wedged.absent⟩
  next room =>
    have present : ∃ old, r.pending.lookup seq = some old := by
      by_contra none
      exact room ⟨wedged.full, by simpa [Option.eq_none_iff_forall_ne_some] using none⟩
    obtain ⟨old, found⟩ := present
    refine ⟨?_, ?_⟩
    · change _ ≤ size (r.pending.insert seq _)
      rw [size_insert_found _ found]
      exact wedged.full
    · change (r.pending.insert seq _).lookup r.nextSeq = none
      rw [lookup_insert_eq, if_neg, wedged.absent]
      rintro rfl
      exact absent_found wedged.absent found

theorem Wedged.onReply (wedged : Wedged r) (e : Recv) : Wedged (r.onReply e).2 := by
  unfold Receiver.onReply
  split
  · exact wedged
  · simp only
    repeat' split
    · exact wedged
    · exact wedged
    · exact wedged
    · exact wedged.buffer _ _ _

theorem Wedged.awaitReplies (wedged : Wedged r) (replies : List Recv) :
    Wedged (r.awaitReplies replies).1 := by
  induction replies generalizing r with
  | nil => exact wedged
  | cons e rest ih =>
    simp only [Receiver.awaitReplies]
    split
    · exact wedged.onReply e
    · exact ih (wedged.onReply e)

theorem Wedged.resolveLoop {χ : Type} (wedged : Wedged r) (ch : RequestChannel χ) (attempts : Nat) (x : χ) :
    Wedged (r.resolveLoop ch attempts x).1 := by
  induction attempts generalizing r x with
  | zero => exact wedged
  | succ attempts ih =>
    simp only [Receiver.resolveLoop]
    split
    · exact wedged
    · split
      · have counted : Wedged { r with requestsSent := r.requestsSent + 1 } := ⟨wedged.full, wedged.absent⟩
        exact ih (counted.awaitReplies _) _
      · exact wedged

theorem buffer_room (room : size r.pending < kMaxPendingPackets) (seq : Nat) (count : UInt16)
    (payload : List UInt8) :
    (r.buffer seq count payload).pending = r.pending.insert seq ⟨count, payload⟩ := by
  rw [Receiver.buffer, if_neg]
  exact fun full => Nat.not_le.mpr room full.1

theorem frontIs_next (least : AtLeast r) :
    r.frontIs r.nextSeq = true ↔ r.pending.lookup r.nextSeq ≠ none := by
  simp only [Receiver.frontIs, decide_eq_true_eq]
  constructor
  · intro here
    obtain ⟨entry, front, same⟩ := Option.map_eq_some_iff.mp here
    rw [← same, (first_eq_some.mp front).1]
    simp
  · intro there
    obtain ⟨node, found⟩ := Option.ne_none_iff_exists'.mp there
    rw [least.front found, Option.map_some]

theorem filled_onReply (r : Receiver) (e : Recv) : Filled (fun _ _ => True) r (r.onReply e).2 :=
  Filled.onReply fun _ _ _ _ _ => trivial

theorem Above.onReply (above : Above r) (onward : (r.onReply e).1 = false) : Above (r.onReply e).2 := by
  have filled := filled_onReply r e
  refine (above.atLeast.filled filled).above ?_
  cases fresh : freshPacket r e with
  | none =>
    rw [onReply_skips fresh]
    exact above.absent
  | some entry =>
    have least := above.atLeast.filled filled
    by_contra there
    have closes := (frontIs_next least).mpr there
    rw [filled.nextSeq, onReply_fresh fresh] at closes
    rw [onReply_fresh fresh] at onward
    exact absurd closes (ne_true_of_eq_false onward)

theorem awaitReplies_needed (above : Above r) (room : size r.pending < kMaxPendingPackets)
    {node : PendingPacket} (fresh : freshPacket r e = some (r.nextSeq, node)) (rest : List Recv) :
    r.awaitReplies (e :: rest) = (r.buffer r.nextSeq node.count node.payload, rest) := by
  have filled : Filled (fun _ _ => True) r (r.buffer r.nextSeq node.count node.payload) :=
    Filled.buffer _ _ _ _ (Nat.le_refl _) trivial
  have stops := (frontIs_next (above.atLeast.filled filled)).mpr (by
    rw [buffer_nextSeq, buffer_room room, found_insert]
    exact .inl rfl)
  rw [buffer_nextSeq] at stops
  rw [Receiver.awaitReplies, onReply_fresh fresh]
  simp only [stops, if_true]

theorem repliesRead_needed {replies : List Recv} (above : Above r) {needed : PendingPacket}
    (inside : (mid, e) ∈ r.repliesRead replies) (fresh : freshPacket mid e = some (r.nextSeq, needed)) :
    (size mid.pending < kMaxPendingPackets → (r.awaitReplies replies).1.pending.lookup r.nextSeq ≠ none) ∧
      (kMaxPendingPackets ≤ size mid.pending → Wedged (r.awaitReplies replies).1) := by
  induction replies generalizing r with
  | nil => cases inside
  | cons e' rest ih =>
    simp only [Receiver.repliesRead, List.mem_cons, Prod.mk.injEq] at inside
    rcases inside with ⟨rfl, rfl⟩ | later
    · refine ⟨fun room => ?_, fun full => Wedged.awaitReplies ⟨full, above.absent⟩ _⟩
      rw [awaitReplies_needed above room fresh, buffer_room room, found_insert]
      exact .inl rfl
    · cases onward : (r.onReply e').1 with
      | true =>
        rw [onward] at later
        cases later
      | false =>
        have same := (filled_onReply r e').nextSeq
        simp only [onward, Bool.false_eq_true, if_false] at later
        simp only [Receiver.awaitReplies, onward, Bool.false_eq_true, if_false]
        have next := ih (above.onReply onward) later (by rw [same]; exact fresh)
        rwa [same] at next

theorem resolveReads_needed {χ : Type} (ch : RequestChannel χ) (attempts : Nat) (x : χ) (least : AtLeast r)
    {needed : PendingPacket} (inside : (mid, e) ∈ r.resolveReads ch attempts x)
    (fresh : freshPacket mid e = some (r.nextSeq, needed)) :
    (r.resolveLoop ch attempts x).1.pending.lookup r.nextSeq ≠ none ↔
      size mid.pending < kMaxPendingPackets := by
  have anything (session : List UInt8) : ch.Genuine (fun _ _ => True) session :=
    fun _ _ _ _ _ _ _ _ _ => trivial
  induction attempts generalizing r x with
  | zero => cases inside
  | succ attempts ih =>
    simp only [Receiver.resolveReads] at inside
    cases front : first r.pending with
    | none =>
      rw [front] at inside
      cases inside
    | some entry =>
      rw [front] at inside
      simp only at inside
      split at inside
      next gap =>
        have above : Above r := fun k p found =>
          Nat.lt_of_lt_of_le gap ((first_eq_some.mp front).2 k p found)
        let sending : Receiver := { r with requestsSent := r.requestsSent + 1 }
        have waits : Filled (fun _ _ => True) r
            (sending.awaitReplies (ch.arrivals x (r.request entry.1))).1 :=
          (Filled.counted r _).trans (Filled.awaitReplies fun _ _ _ _ _ _ _ => trivial)
        have same := waits.nextSeq
        simp only [Receiver.resolveLoop, front, gap, if_true]
        rcases List.mem_append.mp inside with here | later
        · obtain ⟨closes, wedges⟩ := repliesRead_needed (r := sending) above here fresh
          constructor
          · intro there
            by_contra full
            have wedged := (wedges (Nat.le_of_not_lt full)).resolveLoop ch attempts
              (ch.after x (r.request entry.1) (sending.awaitReplies (ch.arrivals x (r.request entry.1))).2)
            have absent := wedged.absent
            rw [(Filled.resolveLoop ch attempts _ (anything _)).nextSeq, same] at absent
            exact there absent
          · intro room
            exact (Filled.resolveLoop ch attempts _ (anything _)).kept _ (closes room)
        · have next := ih _ (least.filled waits) later (by rw [same]; exact fresh)
          rwa [same] at next
      next => cases inside

end Cap

section Advance

variable {χ σ : Type} {ch : RequestChannel χ} {h : Handler σ} {m : Nat → List UInt8} {r : Receiver} {s : σ}

theorem Buffers.drainOne {fine : Nat → PendingPacket → Prop} (buffers : Buffers fine r)
    (node : PendingPacket) (parsed : Nat) : Buffers fine (r.drainOne r.nextSeq node parsed) := by
  intro k p found
  exact buffers k p (found_erase found)

theorem drainLoop_nextSeq (framable : ∀ i, 1 ≤ i → Framable (m i)) (buffers : Buffers (Exact m) r)
    (fuel frames : Nat) : r.nextSeq ≤ (r.drainLoop h fuel s frames).1.nextSeq := by
  induction fuel generalizing r s frames with
  | zero => exact Nat.le_refl _
  | succ fuel ih =>
    simp only [Receiver.drainLoop]
    split
    · exact Nat.le_refl _
    next front node least =>
      split
      next here =>
        subst here
        have whole := buffers _ _ (first_eq_some.mp least).1
        have moved := drainOne_exact whole
        rw [whole.parsed framable]
        have rest := ih (s := feed h s (messages m r.nextSeq node.count.toNat))
          (buffers.drainOne node node.count.toNat) (frames + node.count.toNat)
        exact Nat.le_trans (by omega) rest
      next => exact Nat.le_refl _

theorem drain_grows (framable : ∀ i, 1 ≤ i → Framable (m i)) (least : AtLeast r)
    (buffers : Buffers (Exact m) r) :
    r.nextSeq < (r.drain h s).1.nextSeq ↔ r.pending.lookup r.nextSeq ≠ none := by
  unfold Receiver.drain
  cases here : r.pending.lookup r.nextSeq with
  | none =>
    rw [drainLoop_absent here]
    simp
  | some node =>
    have whole := buffers _ _ here
    have moved := drainOne_exact whole
    have positive := whole.nonempty
    have rest := drainLoop_nextSeq (h := h) (s := feed h s (messages m r.nextSeq node.count.toNat)) framable
      (buffers.drainOne node node.count.toNat) (size (r.pending.erase r.nextSeq)) (0 + node.count.toNat)
    rw [size_erase here]
    simp only [Receiver.drainLoop, least.front here, if_true, whole.parsed framable]
    exact iff_of_true (by omega) (by simp)

theorem Single.noJump (buffers : Buffers (Single m) r) : NoJump r := by
  intro k p chained a q there inside
  have one : p.count.toNat = 1 := by
    cases chained with
    | head found => exact (buffers _ _ found).2
    | next before found => exact (buffers _ _ found).2
  omega

theorem Genuine.mono {fine fine' : Nat → PendingPacket → Prop} {session : List UInt8} {e : Recv}
    (weaker : ∀ k p, fine k p → fine' k p) (genuine : Genuine fine session e) : Genuine fine' session e :=
  fun buf received same live running => weaker _ _ (genuine buf received same live running)

theorem poll_single {p : Endpoint χ σ} {e : Recv} (framable : ∀ i, 1 ≤ i → Framable (m i))
    (replies : ch.Genuine (Single m) p.receiver.session) (genuine : Genuine (Single m) p.receiver.session e)
    (held : Above p.receiver ∧ Buffers (Single m) p.receiver) :
    Above (p.poll ch h e).2.receiver ∧ Buffers (Single m) (p.poll ch h e).2.receiver := by
  have weaker (k : Nat) (q : PendingPacket) (single : Single m k q) : Exact m k q := single.1
  refine ⟨?_, poll_buffers replies genuine held.2⟩
  refine (poll_above framable (fun x sent e' inside => (replies x sent e' inside).mono weaker)
    (genuine.mono weaker) (fun k q found => (held.2 k q found).1) held.1).mpr ?_
  intro r enters
  obtain ⟨entry, fresh, rfl⟩ := Option.map_eq_some_iff.mp enters
  obtain ⟨low, single⟩ := freshPacket_genuine genuine fresh
  exact Single.noJump (held.2.filled (beforeDrain_filled low single replies))

theorem Wedged.beforeDrain {p : Endpoint χ σ} (wedged : Wedged p.receiver) (seq : Nat) (count : UInt16)
    (payload : List UInt8) :
    (p.beforeDrain ch seq count payload).1.pending.lookup p.receiver.nextSeq = none := by
  have after := (wedged.buffer seq count payload).resolveLoop ch kMaxGapFillAttempts p.requests
  have filled : Filled (fun _ _ => True) (p.receiver.buffer seq count payload)
      (p.beforeDrain ch seq count payload).1 :=
    Filled.resolveLoop ch kMaxGapFillAttempts p.requests fun _ _ _ _ _ _ _ _ _ => trivial
  have absent := after.absent
  rwa [show (Receiver.resolveLoop ch _ _ _).1.nextSeq = _ from filled.nextSeq, buffer_nextSeq] at absent

variable (ch h) in
theorem Wedged.accept {p : Endpoint χ σ} {seq : Nat} {count : UInt16} {payload : List UInt8}
    (wedged : Wedged (p.receiver.buffer seq count payload)) (low : p.receiver.nextSeq ≤ seq) :
    Wedged (p.accept ch h seq count payload).2.receiver ∧
      (p.accept ch h seq count payload).2.receiver.nextSeq = p.receiver.nextSeq := by
  have ready : Wedged (p.beforeDrain ch seq count payload).1 :=
    wedged.resolveLoop ch kMaxGapFillAttempts p.requests
  have filled : Filled (fun _ _ => True) p.receiver (p.beforeDrain ch seq count payload).1 :=
    beforeDrain_filled low trivial fun _ _ _ _ _ _ _ _ _ => trivial
  have stays : (p.accept ch h seq count payload).2.receiver = (p.beforeDrain ch seq count payload).1 := by
    rw [Endpoint.accept, if_neg (Nat.not_lt.mpr low)]
    exact congrArg Prod.fst (drainLoop_absent ready.absent _ _)
  rw [stays]
  exact ⟨ready, filled.nextSeq⟩

variable (ch h) in
theorem Wedged.poll {p : Endpoint χ σ} (wedged : Wedged p.receiver) (e : Recv) :
    Wedged (p.poll ch h e).2.receiver ∧ (p.poll ch h e).2.receiver.nextSeq = p.receiver.nextSeq := by
  cases fresh : freshPacket p.receiver e with
  | none =>
    obtain ⟨ended, same⟩ := poll_stale ch h fresh
    rw [same]
    exact ⟨⟨wedged.full, wedged.absent⟩, rfl⟩
  | some entry =>
    have anything : Genuine (fun _ _ => True) p.receiver.session e := fun _ _ _ _ _ => trivial
    rw [poll_fresh ch h fresh]
    exact (wedged.buffer _ _ _).accept ch h (freshPacket_genuine anything fresh).1

theorem beforeDrain_room {p : Endpoint χ σ} (room : size p.receiver.pending < kMaxPendingPackets) (seq : Nat)
    (count : UInt16) (payload : List UInt8) :
    (p.beforeDrain ch seq count payload).1.pending.lookup seq ≠ none := by
  have stored : (p.receiver.buffer seq count payload).pending.lookup seq ≠ none := by
    rw [buffer_room room, lookup_insert_eq, if_pos rfl]
    simp
  have filled : Filled (fun _ _ => True) (p.receiver.buffer seq count payload)
      (p.beforeDrain ch seq count payload).1 :=
    Filled.resolveLoop ch kMaxGapFillAttempts p.requests fun _ _ _ _ _ _ _ _ _ => trivial
  exact filled.kept seq stored

theorem accept_grows {p : Endpoint χ σ} (framable : ∀ i, 1 ≤ i → Framable (m i))
    (replies : ch.Genuine (Single m) p.receiver.session) (above : Above p.receiver)
    (buffers : Buffers (Single m) p.receiver) {seq : Nat} {node : PendingPacket}
    (low : p.receiver.nextSeq ≤ seq) (single : Single m seq node) :
    p.receiver.nextSeq < (p.accept ch h seq node.count node.payload).2.receiver.nextSeq ↔
      (p.beforeDrain ch seq node.count node.payload).1.pending.lookup p.receiver.nextSeq ≠ none := by
  have filled : Filled (Single m) p.receiver (p.beforeDrain ch seq node.count node.payload).1 :=
    beforeDrain_filled low single replies
  have grows := drain_grows (h := h) (s := p.handler) framable (above.atLeast.filled filled)
    fun k q found => (buffers.filled filled k q found).1
  rw [Endpoint.accept, if_neg (Nat.not_lt.mpr low)]
  rwa [filled.nextSeq] at grows

end Advance

/-- From every state that one-message packets can lead to, the needed packet
moves next_seq, on the data channel and as a gap-fill reply, exactly when it
finds fewer than kMaxPendingPackets packets buffered. -/
theorem needed_packet_advances_iff {χ σ : Type} (ch : RequestChannel χ) (h : Handler σ)
    (m : Nat → List UInt8) (framable : ∀ i, 1 ≤ i → Framable (m i)) (session : List UInt8) (x : χ) (start : σ)
    (replies : ch.Genuine (Single m) session) (arrived : List Recv)
    (genuine : ∀ e ∈ arrived, Genuine (Single m) session e) :
    let p := Endpoint.run ch h ⟨{ session }, x, start⟩ arrived
    (∀ node, Single m p.receiver.nextSeq node →
      (p.receiver.nextSeq <
          (p.accept ch h p.receiver.nextSeq node.count node.payload).2.receiver.nextSeq ↔
        p.receiver.pendingCount < kMaxPendingPackets)) ∧
    ∀ seq node mid e needed, p.receiver.nextSeq ≤ seq → Single m seq node →
      (mid, e) ∈ (p.receiver.buffer seq node.count node.payload).resolveReads ch kMaxGapFillAttempts
        p.requests →
      freshPacket mid e = some (p.receiver.nextSeq, needed) →
      (p.receiver.nextSeq < (p.accept ch h seq node.count node.payload).2.receiver.nextSeq ↔
        mid.pendingCount < kMaxPendingPackets) := by
  intro p
  have ran : p.receiver.session = session ∧ (Above p.receiver ∧ Buffers (Single m) p.receiver) := by
    refine run_invariant ⟨{ session }, x, start⟩ (fun q => Above q.receiver ∧ Buffers (Single m) q.receiver)
      genuine ⟨fun _ _ found => (nomatch found), fun _ _ found => (nomatch found)⟩ ?_
    intro q e same held fresh
    exact poll_single framable (same ▸ replies) fresh held
  obtain ⟨same, above, buffers⟩ := ran
  rw [← same] at replies
  constructor
  · intro node single
    rw [accept_grows framable replies above buffers (Nat.le_refl _) single]
    constructor
    · intro there
      by_contra full
      exact there (Wedged.beforeDrain ⟨Nat.le_of_not_lt full, above.absent⟩ _ _ _)
    · intro room
      exact beforeDrain_room room _ _ _
  · intro seq node mid e needed low single inside fresh
    rw [accept_grows framable replies above buffers low single]
    have buffered := Filled.buffer p.receiver seq node.count node.payload low single
    have same' := buffered.nextSeq
    have next := resolveReads_needed ch kMaxGapFillAttempts p.requests (above.atLeast.filled buffered) inside
      (by rw [same']; exact fresh)
    rwa [same'] at next

section Demo

def onePacket (i : Nat) : PendingPacket := ⟨UInt16.ofNat 1, stream (messages demoMessage i 1)⟩

theorem onePacket_single {i : Nat} (positive : 1 ≤ i) (fits : i + 1 < 2 ^ 64) :
    Single demoMessage i (onePacket i) := by
  have one : (UInt16.ofNat 1).toNat = 1 := rfl
  exact ⟨⟨positive, Nat.le_of_eq one.symm, fits, rfl⟩, one⟩

theorem batch_single {i : Nat} (positive : 1 ≤ i) (fits : i + 1 < 2 ^ 64) :
    Genuine (Single demoMessage) demoSession (batch i 1) :=
  genuine_datagram rfl (by omega) (onePacket_single positive fits)

theorem batch_fresh {r : Receiver} (same : r.session = demoSession) {i : Nat} (fits : i < 2 ^ 64)
    (above : r.nextSeq ≤ i) : freshPacket r (batch i 1) = some (i, onePacket i) := by
  rw [batch, ← same]
  exact freshPacket_datagram (same ▸ rfl) fits (by decide) (by decide) above

-- A channel that answers every request with message 1.
def answersFirst : RequestChannel Unit := ⟨fun _ _ => [batch 1 1], fun x _ _ => x⟩

theorem answersFirst_genuine : answersFirst.Genuine (Single demoMessage) demoSession := by
  intro _ _ e inside
  cases List.mem_singleton.mp inside
  exact batch_single (Nat.le_refl 1) (by decide)

def answeredStart : Endpoint Unit Unit :=
  Endpoint.run answersFirst (fun _ s => s) ⟨{ session := demoSession }, (), ()⟩ []

-- Message 1 straight from the data channel, or as the answer to the gap that message 2 opens.
theorem needed_packet_advances_iff_first :
    answeredStart.receiver.nextSeq < (answeredStart.accept answersFirst (fun _ s => s)
        answeredStart.receiver.nextSeq (onePacket 1).count (onePacket 1).payload).2.receiver.nextSeq ∧
      answeredStart.receiver.nextSeq < (answeredStart.accept answersFirst (fun _ s => s) 2
        (onePacket 2).count (onePacket 2).payload).2.receiver.nextSeq := by
  have law := needed_packet_advances_iff answersFirst (fun _ s => s) demoMessage demoMessage_framable
    demoSession () () answersFirst_genuine [] nofun
  rw [← answeredStart] at law
  refine ⟨(law.1 (onePacket 1) (onePacket_single (Nat.le_refl 1) (by decide))).mpr (by decide), ?_⟩
  let waiting : Receiver :=
    { answeredStart.receiver.buffer 2 (onePacket 2).count (onePacket 2).payload with requestsSent := 1 }
  have low : answeredStart.receiver.nextSeq ≤ 2 := Nat.le_succ 1
  have reads : (waiting, batch 1 1) ∈ (answeredStart.receiver.buffer 2 (onePacket 2).count
      (onePacket 2).payload).resolveReads answersFirst kMaxGapFillAttempts answeredStart.requests :=
    List.mem_cons_self
  have fresh : freshPacket waiting (batch 1 1) = some (answeredStart.receiver.nextSeq, onePacket 1) :=
    batch_fresh rfl (by decide) (Nat.le_refl 1)
  have room : waiting.pendingCount < kMaxPendingPackets := by decide
  exact (law.2 2 (onePacket 2) waiting (batch 1 1) (onePacket 1) low
    (onePacket_single (by decide) (by decide)) reads fresh).mpr room

theorem resolveLoop_silent (attempts : Nat) (r : Receiver) (x : Unit) :
    (r.resolveLoop silent attempts x).1.pending = r.pending ∧
      (r.resolveLoop silent attempts x).1.nextSeq = r.nextSeq := by
  induction attempts generalizing r x with
  | zero => exact ⟨rfl, rfl⟩
  | succ attempts ih =>
    simp only [Receiver.resolveLoop]
    split
    · exact ⟨rfl, rfl⟩
    · split
      · exact ih _ _
      · exact ⟨rfl, rfl⟩

structure Behind (n : Nat) (p : Endpoint Unit Unit) : Prop where
  session : p.receiver.session = demoSession
  nextSeq : p.receiver.nextSeq = 1
  size : size p.receiver.pending = n
  above : Above p.receiver
  below : ∀ k, n + 2 ≤ k → p.receiver.pending.lookup k = none

theorem Behind.next {n : Nat} {p : Endpoint Unit Unit} (behind : Behind n p) (room : n < kMaxPendingPackets) :
    Behind (n + 1) (p.poll silent (fun _ s => s) (batch (n + 2) 1)).2 := by
  obtain ⟨session, nextSeq, size, above, below⟩ := behind
  have small : n < 256 := room
  have fresh : freshPacket p.receiver (batch (n + 2) 1) = some (n + 2, onePacket (n + 2)) :=
    batch_fresh session (by omega) (by omega)
  let node := onePacket (n + 2)
  let ready := (p.beforeDrain silent (n + 2) node.count node.payload).1
  have pending : ready.pending = p.receiver.pending.insert (n + 2) node := by
    rw [show ready.pending = _ from (resolveLoop_silent _ _ _).1, buffer_room (by omega)]
  have same : ready.nextSeq = 1 := by
    rw [show ready.nextSeq = _ from (resolveLoop_silent _ _ _).2, buffer_nextSeq, nextSeq]
  have keys : Above ready := by
    intro k q found
    rw [pending, lookup_insert_eq] at found
    rw [same]
    split at found
    · omega
    · exact nextSeq ▸ above k q found
  have drained : ready.drain (fun _ s => s) p.handler = (ready, p.handler, 0) :=
    drainLoop_absent keys.absent _ _
  have polled : (p.poll silent (fun _ s => s) (batch (n + 2) 1)).2.receiver = ready := by
    rw [poll_fresh silent _ fresh, Endpoint.accept, if_neg (by omega)]
    exact congrArg Prod.fst drained
  refine ⟨?_, ?_, ?_, ?_, fun k beyond => ?_⟩
  · rw [poll_session, session]
  · rw [polled, same]
  · rw [polled, pending, size_insert_fresh _ (below _ (Nat.le_refl _)), size]
  · rw [polled]
    exact keys
  · rw [polled, pending, lookup_insert_eq, if_neg (by omega)]
    exact below k (by omega)

-- Messages 2, 3, ... arrive while message 1 is missing.
def overtaking (n : Nat) : List Recv := (List.range n).map fun i => batch (i + 2) 1

theorem behind_run (n : Nat) (room : n ≤ kMaxPendingPackets) : Behind n (demoRun (overtaking n)) := by
  induction n with
  | zero => exact ⟨rfl, rfl, rfl, fun _ _ found => (nomatch found), fun _ _ => rfl⟩
  | succ n ih =>
    have next := (ih (by omega)).next (by omega)
    rw [overtaking, List.range_succ, List.map_append, List.map_cons, List.map_nil, demoRun, run_append]
    exact next

theorem overtaking_genuine (n : Nat) (small : n < 2 ^ 63) :
    ∀ e ∈ overtaking n, Genuine (Single demoMessage) demoSession e := by
  intro e inside
  obtain ⟨i, member, rfl⟩ := List.mem_map.mp inside
  have low := List.mem_range.mp member
  exact batch_single (by omega) (by omega)

-- Messages 2 to 257 are buffered when message 1 finally arrives, and it is refused.
theorem needed_packet_refused :
    (∀ e ∈ overtaking kMaxPendingPackets, Genuine (Single demoMessage) demoSession e) ∧
      (demoRun (overtaking kMaxPendingPackets)).receiver.nextSeq = 1 ∧
      Single demoMessage (demoRun (overtaking kMaxPendingPackets)).receiver.nextSeq (onePacket 1) ∧
      ¬ (demoRun (overtaking kMaxPendingPackets)).receiver.nextSeq <
        ((demoRun (overtaking kMaxPendingPackets)).accept silent (fun _ s => s)
          (demoRun (overtaking kMaxPendingPackets)).receiver.nextSeq (onePacket 1).count
          (onePacket 1).payload).2.receiver.nextSeq := by
  have behind := behind_run kMaxPendingPackets (Nat.le_refl _)
  have genuine := overtaking_genuine kMaxPendingPackets (by decide)
  have buffers : Buffers (Single demoMessage) (demoRun (overtaking kMaxPendingPackets)).receiver :=
    (run_invariant ⟨{ session := demoSession }, (), ()⟩ (fun q => Buffers (Single demoMessage) q.receiver)
      genuine (fun _ _ found => nomatch found) fun q e _ held fresh =>
        poll_buffers (silent_genuine _ _) fresh held).2
  generalize demoRun (overtaking kMaxPendingPackets) = p at behind buffers ⊢
  have single : Single demoMessage p.receiver.nextSeq (onePacket 1) := by
    rw [behind.nextSeq]
    exact onePacket_single (Nat.le_refl 1) (by decide)
  have wedged : Wedged p.receiver := ⟨Nat.le_of_eq behind.size.symm, behind.above.absent⟩
  refine ⟨genuine, behind.nextSeq, single, ?_⟩
  rw [accept_grows demoMessage_framable (silent_genuine _ _) behind.above buffers (Nat.le_refl _) single]
  exact not_not.mpr (wedged.beforeDrain _ _ _)

end Demo

end ItchLob.Net
