import ItchLob.Net.Delivery

set_option autoImplicit false

namespace ItchLob.Net

open Itch hiding decode
open FiniteMap MoldUdp64 Framing

/-- A well-formed packet (s, c): exactly messages s to s + c - 1. -/
structure Exact (m : Nat → List UInt8) (s : Nat) (p : PendingPacket) : Prop where
  positive : 1 ≤ s
  nonempty : 1 ≤ p.count.toNat
  fits : s + p.count.toNat < 2 ^ 64
  payload : p.payload = stream (messages m s p.count.toNat)

def Above (r : Receiver) : Prop := ∀ k p, r.pending.lookup k = some p → r.nextSeq < k

def AtLeast (r : Receiver) : Prop := ∀ k p, r.pending.lookup k = some p → r.nextSeq ≤ k

theorem above_iff_entries (r : Receiver) : Above r ↔ ∀ entry ∈ r.pending.entries, r.nextSeq < entry.1 :=
  ⟨fun above entry inside => above entry.1 entry.2 (lookup_iff_entry.mpr inside),
    fun below k p found => below ⟨k, p⟩ (lookup_iff_entry.mp found)⟩

instance (r : Receiver) : Decidable (Above r) := decidable_of_iff _ (above_iff_entries r).symm

/-- The buffered packets that follow one another without a gap from next_seq on. -/
inductive Chained (r : Receiver) : Nat → PendingPacket → Prop where
  | head {p : PendingPacket} (found : r.pending.lookup r.nextSeq = some p) : Chained r r.nextSeq p
  | next {k : Nat} {p q : PendingPacket} (before : Chained r k p)
      (found : r.pending.lookup (k + p.count.toNat) = some q) : Chained r (k + p.count.toNat) q

/-- No buffered packet starts strictly inside a packet of that chain. -/
def NoJump (r : Receiver) : Prop :=
  ∀ k p, Chained r k p → ∀ a q, r.pending.lookup a = some q → ¬ (k < a ∧ a < k + p.count.toNat)

section Drain

variable {σ : Type} {h : Handler σ} {m : Nat → List UInt8} {r : Receiver} {s : σ}

theorem AtLeast.above (least : AtLeast r) (absent : r.pending.lookup r.nextSeq = none) : Above r := by
  intro k p found
  refine Nat.lt_of_le_of_ne (least k p found) fun same => ?_
  rw [← same, absent] at found
  cases found

theorem Above.absent (above : Above r) : r.pending.lookup r.nextSeq = none := by
  by_contra there
  obtain ⟨p, found⟩ := Option.ne_none_iff_exists'.mp there
  exact Nat.lt_irrefl _ (above _ p found)

theorem Above.atLeast (above : Above r) : AtLeast r := fun k p found => Nat.le_of_lt (above k p found)

-- Under AtLeast the drain's test reads off whether next_seq is buffered.
theorem AtLeast.front (least : AtLeast r) {node : PendingPacket}
    (found : r.pending.lookup r.nextSeq = some node) : first r.pending = some (r.nextSeq, node) :=
  first_eq_some.mpr ⟨found, fun a w there => least a w there⟩

theorem Exact.parsed {k : Nat} {p : PendingPacket} (exact : Exact m k p)
    (framable : ∀ i, 1 ≤ i → Framable (m i)) (h : Handler σ) (s : σ) :
    parseStream h p.payload s = (feed h s (messages m k p.count.toNat), p.count.toNat) := by
  rw [parseStream_feed, exact.payload, frames_stream _ (messages_framable framable exact.positive _),
    messages_length]

theorem Exact.carries {k : Nat} {p : PendingPacket} (exact : Exact m k p) : Carries m k p :=
  fun _ => ⟨p.count.toNat, exact.fits, exact.payload ▸ List.prefix_rfl⟩

theorem drainOne_exact {node : PendingPacket} (exact : Exact m r.nextSeq node) :
    (r.drainOne r.nextSeq node node.count.toNat).nextSeq = r.nextSeq + node.count.toNat :=
  Nat.mod_eq_of_lt exact.fits

theorem drainOne_lookup (node : PendingPacket) (parsed k : Nat) :
    (r.drainOne r.nextSeq node parsed).pending.lookup k =
      if k = r.nextSeq then none else r.pending.lookup k :=
  lookup_erase_eq r.pending r.nextSeq k

theorem Chained.le {k : Nat} {p : PendingPacket} (chained : Chained r k p) : r.nextSeq ≤ k := by
  induction chained with
  | head => exact Nat.le_refl _
  | next before found ih => exact ih.trans (Nat.le_add_right _ _)

theorem Chained.beyond {node p : PendingPacket} (exact : Exact m r.nextSeq node) {k : Nat}
    (chained : Chained (r.drainOne r.nextSeq node node.count.toNat) k p) : r.nextSeq < k := by
  have low := chained.le
  have positive := exact.nonempty
  rw [drainOne_exact exact] at low
  omega

theorem chained_drainOne {node : PendingPacket} (found : r.pending.lookup r.nextSeq = some node)
    (exact : Exact m r.nextSeq node) (k : Nat) (p : PendingPacket) :
    Chained r k p ↔
      (k = r.nextSeq ∧ p = node) ∨ Chained (r.drainOne r.nextSeq node node.count.toNat) k p := by
  have moved := drainOne_exact exact
  have positive := exact.nonempty
  constructor
  · intro chained
    induction chained with
    | head here =>
      rw [found, Option.some.injEq] at here
      exact .inl ⟨rfl, here.symm⟩
    | @next k p q before there ih =>
      rcases ih with ⟨rfl, rfl⟩ | chained
      · right
        have here : (r.drainOne r.nextSeq p p.count.toNat).pending.lookup
            (r.drainOne r.nextSeq p p.count.toNat).nextSeq = some q := by
          rw [drainOne_lookup, moved, if_neg (by omega), there]
        rw [← moved]
        exact .head here
      · right
        have beyond := chained.beyond exact
        refine .next chained ?_
        rw [drainOne_lookup, if_neg (by omega), there]
  · rintro (⟨rfl, rfl⟩ | chained)
    · exact .head found
    · induction chained with
      | head here =>
        rw [drainOne_lookup, moved, if_neg (by omega)] at here
        rw [moved]
        exact .next (.head found) here
      | @next k p q before there ih =>
        have beyond := before.beyond exact
        rw [drainOne_lookup, if_neg (by omega)] at there
        exact .next ih there

theorem noJump_drainOne {node : PendingPacket} (found : r.pending.lookup r.nextSeq = some node)
    (exact : Exact m r.nextSeq node)
    (clear : ∀ a q, r.pending.lookup a = some q → ¬ (r.nextSeq < a ∧ a < r.nextSeq + node.count.toNat)) :
    NoJump r ↔ NoJump (r.drainOne r.nextSeq node node.count.toNat) := by
  constructor
  · intro smooth k p chained a q there
    exact smooth k p ((chained_drainOne found exact k p).mpr (.inr chained)) a q (found_erase there)
  · intro smooth k p chained a q there inside
    rcases (chained_drainOne found exact k p).mp chained with ⟨rfl, rfl⟩ | chained
    · exact clear a q there inside
    · have beyond := chained.beyond exact
      refine smooth k p chained a q ?_ inside
      rw [drainOne_lookup, if_neg (by omega), there]

theorem drainLoop_stops (ahead : ∀ node, first r.pending ≠ some (r.nextSeq, node)) (fuel frames : Nat) :
    r.drainLoop h fuel s frames = (r, s, frames) := by
  cases fuel with
  | zero => rfl
  | succ fuel =>
    simp only [Receiver.drainLoop]
    split
    · rfl
    next front node least =>
      rw [if_neg]
      rintro rfl
      exact ahead node least

theorem drainLoop_absent (absent : r.pending.lookup r.nextSeq = none) (fuel frames : Nat) :
    r.drainLoop h fuel s frames = (r, s, frames) :=
  drainLoop_stops (fun _ front => absent_found absent (first_eq_some.mp front).1) fuel frames

theorem drainLoop_entries (fuel frames : Nat) {k : Nat} {p : PendingPacket}
    (found : (r.drainLoop h fuel s frames).1.pending.lookup k = some p) : r.pending.lookup k = some p := by
  induction fuel generalizing r s frames with
  | zero => exact found
  | succ fuel ih =>
    simp only [Receiver.drainLoop] at found
    split at found
    · exact found
    next front node least =>
      split at found
      · exact found_erase (ih _ found)
      · exact found

theorem Chained.nonempty {k : Nat} {p : PendingPacket} (chained : Chained r k p) :
    r.pending.lookup r.nextSeq ≠ none := by
  induction chained with
  | head found => simp [found]
  | next before found ih => exact ih

/-- drain() leaves a clean buffer exactly when no chained packet jumps over the
start of another one. A jump leaves the overtaken packet at the front, below
next_seq, and stops the loop. -/
theorem drainLoop_above (framable : ∀ i, 1 ≤ i → Framable (m i)) (fuel : Nat)
    (enough : size r.pending ≤ fuel) (least : AtLeast r)
    (exact : ∀ k p, r.pending.lookup k = some p → Exact m k p) (frames : Nat) :
    Above (r.drainLoop h fuel s frames).1 ↔ NoJump r := by
  induction fuel generalizing r s frames with
  | zero =>
    have none (k : Nat) : r.pending.lookup k = none := by
      by_contra there
      obtain ⟨p, found⟩ := Option.ne_none_iff_exists'.mp there
      have := size_erase found
      omega
    refine iff_of_true (fun k p found => ?_) fun k p chained a q found => ?_
    · exact absurd found (absent_found (none k))
    · exact absurd found (absent_found (none a))
  | succ fuel ih =>
    cases here : r.pending.lookup r.nextSeq with
    | none =>
      rw [drainLoop_absent here]
      exact iff_of_true (least.above here) fun k p chained => absurd here chained.nonempty
    | some node =>
      have whole := exact _ _ here
      have moved := drainOne_exact whole
      have smaller := size_erase here
      simp only [Receiver.drainLoop, least.front here, if_true, whole.parsed framable]
      by_cases clear : ∀ a q, r.pending.lookup a = some q →
          ¬ (r.nextSeq < a ∧ a < r.nextSeq + node.count.toNat)
      · rw [noJump_drainOne here whole clear]
        refine ih ?_ ?_ ?_ _
        · change size (r.pending.erase r.nextSeq) ≤ fuel
          omega
        · intro k p found
          rw [drainOne_lookup] at found
          split at found
          · cases found
          next apart =>
            have low := least k p found
            have := clear k p found
            rw [moved]
            omega
        · intro k p found
          exact exact k p (found_erase found)
      · push Not at clear
        obtain ⟨a, q, there, inside⟩ := clear
        have left : (r.drainOne r.nextSeq node node.count.toNat).pending.lookup a = some q := by
          rw [drainOne_lookup, if_neg (by omega), there]
        refine iff_of_false (fun above => ?_) fun smooth => smooth _ _ (.head here) a q there inside
        -- The front is at most a, below next_seq, so the loop stops with a in it.
        rw [drainLoop_stops fun p least' => ?_] at above
        · have low : (r.drainOne r.nextSeq node node.count.toNat).nextSeq < a := above a q left
          omega
        · have low := (first_eq_some.mp least').2 a q left
          omega

end Drain

section Run

variable {χ σ : Type} (ch : RequestChannel χ) {h : Handler σ} {m : Nat → List UInt8}

def entersDrain (p : Endpoint χ σ) (e : Recv) : Option Receiver :=
  (freshPacket p.receiver e).map fun entry =>
    (p.beforeDrain ch entry.1 entry.2.count entry.2.payload).1

variable {ch} {p : Endpoint χ σ} {e : Recv}

def Buffers (fine : Nat → PendingPacket → Prop) (r : Receiver) : Prop :=
  ∀ k p, r.pending.lookup k = some p → fine k p

theorem Buffers.filled {fine : Nat → PendingPacket → Prop} {r r' : Receiver} (buffers : Buffers fine r)
    (filled : Filled fine r r') : Buffers fine r' :=
  fun k p found => (filled.entries k p found).elim (buffers k p) And.right

theorem AtLeast.filled {fine : Nat → PendingPacket → Prop} {r r' : Receiver} (least : AtLeast r)
    (filled : Filled fine r r') : AtLeast r' := by
  intro k p found
  rw [filled.nextSeq]
  exact (filled.entries k p found).elim (least k p) And.left

theorem poll_buffers {fine : Nat → PendingPacket → Prop} (replies : ch.Genuine fine p.receiver.session)
    (genuine : Genuine fine p.receiver.session e) (buffers : Buffers fine p.receiver) :
    Buffers fine (p.poll ch h e).2.receiver := by
  cases fresh : freshPacket p.receiver e with
  | none =>
    obtain ⟨ended, same⟩ := poll_stale ch h fresh
    rw [same]
    exact buffers
  | some entry =>
    obtain ⟨above, carries⟩ := freshPacket_genuine genuine fresh
    rw [poll_fresh ch h fresh, Endpoint.accept, if_neg (Nat.not_lt.mpr above)]
    intro k q found
    exact buffers.filled (beforeDrain_filled above carries replies) k q (drainLoop_entries _ _ found)

theorem poll_above (framable : ∀ i, 1 ≤ i → Framable (m i))
    (replies : ch.Genuine (Exact m) p.receiver.session) (genuine : Genuine (Exact m) p.receiver.session e)
    (buffers : Buffers (Exact m) p.receiver) (above : Above p.receiver) :
    Above (p.poll ch h e).2.receiver ↔ ∀ r, entersDrain ch p e = some r → NoJump r := by
  unfold entersDrain
  cases fresh : freshPacket p.receiver e with
  | none =>
    obtain ⟨ended, same⟩ := poll_stale ch h fresh
    rw [same]
    exact iff_of_true above (by simp)
  | some entry =>
    obtain ⟨low, exact⟩ := freshPacket_genuine genuine fresh
    have filled : Filled (Exact m) p.receiver
        (p.beforeDrain ch entry.1 entry.2.count entry.2.payload).1 := beforeDrain_filled low exact replies
    rw [poll_fresh ch h fresh, Endpoint.accept, if_neg (Nat.not_lt.mpr low)]
    simp only [Option.map_some, Option.some.injEq, forall_eq']
    exact drainLoop_above framable _ (Nat.le_refl _) (above.atLeast.filled filled) (buffers.filled filled) 0

end Run

/-- No stale packet is ever left at the head of the reorder buffer in exactly
those runs in which, whenever drain() starts, no buffered packet begins strictly
inside a packet of the contiguous chain it is about to apply. -/
theorem head_never_stale_iff {χ σ : Type} (ch : RequestChannel χ) (h : Handler σ) (m : Nat → List UInt8)
    (framable : ∀ i, 1 ≤ i → Framable (m i)) (session : List UInt8) (x : χ) (start : σ)
    (replies : ch.Genuine (Exact m) session) (arrived : List Recv)
    (genuine : ∀ e ∈ arrived, Genuine (Exact m) session e) :
    let run := Endpoint.run ch h ⟨{ session }, x, start⟩
    (∀ seen rest, arrived = seen ++ rest → Above (run seen).receiver) ↔
      ∀ seen e rest, arrived = seen ++ e :: rest →
        ∀ r, entersDrain ch (run seen) e = some r → NoJump r := by
  intro run
  have ran (seen rest : List Recv) (split : arrived = seen ++ rest) :
      (run seen).receiver.session = session ∧ Buffers (Exact m) (run seen).receiver := by
    refine run_invariant ⟨{ session }, x, start⟩ (fun q => Buffers (Exact m) q.receiver)
      (fun e inside => genuine e (by simp [split, inside])) (fun _ _ found => nomatch found) ?_
    intro q e same buffers fresh
    exact poll_buffers (same ▸ replies) fresh buffers
  have step (seen : List Recv) (e : Recv) (rest : List Recv) (split : arrived = seen ++ e :: rest)
      (above : Above (run seen).receiver) :
      Above (run (seen ++ [e])).receiver ↔ ∀ r, entersDrain ch (run seen) e = some r → NoJump r := by
    obtain ⟨same, buffers⟩ := ran seen _ split
    have fresh := genuine e (by simp [split])
    rw [show run (seen ++ [e]) = _ from run_append _ seen e]
    rw [← same] at replies fresh
    exact poll_above framable replies fresh buffers above
  constructor
  · intro clean seen e rest split
    exact (step seen e rest split (clean seen _ split)).mp (clean (seen ++ [e]) rest (by simp [split]))
  · intro smooth seen rest split
    induction seen using List.reverseRecOn generalizing rest with
    | nil => exact fun _ _ found => nomatch found
    | append_singleton seen e ih =>
      have split' : arrived = seen ++ e :: rest := by simp [split]
      exact (step seen e rest split' (ih _ split')).mpr (smooth seen e rest split')

section Batches

-- A session of two-byte messages over a request channel that never answers.
def demoSession : List UInt8 := List.replicate 10 32
def demoMessage (i : Nat) : List UInt8 := [65, UInt8.ofNat i]
def silent : RequestChannel Unit := ⟨fun _ _ => [], fun x _ _ => x⟩

def batch (seq : Nat) (count : Nat) : Recv :=
  datagram demoSession seq (UInt16.ofNat count) (stream (messages demoMessage seq count))

def demoRun : List Recv → Endpoint Unit Unit :=
  Endpoint.run silent (fun _ s => s) ⟨{ session := demoSession }, (), ()⟩

theorem demoMessage_framable (i : Nat) (_ : 1 ≤ i) : Framable (demoMessage i) :=
  ⟨by simp [demoMessage], by simp [demoMessage]⟩

theorem silent_genuine (fine : Nat → PendingPacket → Prop) (session : List UInt8) :
    silent.Genuine fine session := fun _ _ _ inside => nomatch inside

theorem batch_genuine {seq count : Nat} (positive : 1 ≤ seq) (nonempty : 1 ≤ count) (narrow : count < 2 ^ 16)
    (fits : seq + count < 2 ^ 64) : Genuine (Exact demoMessage) demoSession (batch seq count) := by
  have size : (UInt16.ofNat count).toNat = count := UInt16.toNat_ofNat_of_lt' narrow
  refine genuine_datagram rfl (by omega) ⟨positive, ?_, ?_, ?_⟩ <;> simp only [size]
  · exact nonempty
  · exact fits

theorem head_never_stale_iff_adjacent :
    let arrived := [batch 3 2, batch 1 2]
    (∀ e ∈ arrived, Genuine (Exact demoMessage) demoSession e) ∧ (demoRun arrived).receiver.nextSeq = 5 ∧
      ∀ seen e rest, arrived = seen ++ e :: rest →
        ∀ r, entersDrain silent (demoRun seen) e = some r → NoJump r := by
  intro arrived
  have genuine : ∀ e ∈ arrived, Genuine (Exact demoMessage) demoSession e := by
    intro e inside
    simp only [arrived, List.mem_cons, List.not_mem_nil, or_false] at inside
    rcases inside with rfl | rfl <;> exact batch_genuine (by decide) (by decide) (by decide) (by decide)
  have clean (seen rest : List Recv) (split : arrived = seen ++ rest) : Above (demoRun seen).receiver := by
    have before : seen <+: arrived := ⟨rest, split.symm⟩
    have listed : seen ∈ arrived.inits := (List.mem_inits _ _).mpr before
    have all : ∀ part ∈ arrived.inits, Above (demoRun part).receiver := by decide +kernel
    exact all seen listed
  exact ⟨genuine, by decide +kernel, (head_never_stale_iff silent (fun _ s => s) demoMessage
    demoMessage_framable demoSession () () (silent_genuine _ _) arrived genuine).mp clean⟩

-- Message 3 waits alone when a batch of messages 1 to 3 arrives: the drain moves
-- next_seq to 4 and leaves the packet for 3 at the front.
theorem stale_head_after_batch :
    let arrived := [batch 3 1, batch 1 3]
    (∀ e ∈ arrived, Genuine (Exact demoMessage) demoSession e) ∧
      (demoRun arrived).receiver.nextSeq = 4 ∧ ¬ Above (demoRun arrived).receiver := by
  intro arrived
  refine ⟨?_, by decide +kernel, by decide +kernel⟩
  intro e inside
  simp only [arrived, List.mem_cons, List.not_mem_nil, or_false] at inside
  rcases inside with rfl | rfl
  · exact batch_genuine (by decide) (by decide) (by decide) (by decide)
  · exact batch_genuine (by decide) (by decide) (by decide) (by decide)

end Batches

end ItchLob.Net
