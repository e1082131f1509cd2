import ItchLob.Net.RoundTrip

set_option autoImplicit false

namespace ItchLob.Net

open Itch hiding decode
open FiniteMap MoldUdp64 Framing Sender

namespace Receiver

def asked {χ : Type} (ch : RequestChannel χ) : Nat → Receiver → χ → List (Receiver × List UInt8)
  | 0, _, _ => []
  | attempts + 1, r, x =>
    match first r.pending with
    | none => []
    | some (front, _) =>
      if r.nextSeq < front then
        let sent := r.request front
        let turn := awaitReplies { r with requestsSent := r.requestsSent + 1 } (ch.arrivals x sent)
        (r, sent) :: asked ch attempts turn.1 (ch.after x sent turn.2)
      else []

def numbersLoop {σ : Type} (h : Handler σ) : Nat → Receiver → σ → List Nat
  | 0, _, _ => []
  | fuel + 1, r, s =>
    match first r.pending with
    | none => []
    | some (front, node) =>
      if front = r.nextSeq then
        let out := parseStream h node.payload s
        (List.range out.2).map (fun i => (r.nextSeq + i) % 2 ^ 64) ++
          numbersLoop h fuel (r.drainOne front node out.2) out.1
      else []

end Receiver

namespace Endpoint

variable {χ σ : Type} (ch : RequestChannel χ) (h : Handler σ)

def asked (p : Endpoint χ σ) (e : Recv) : List (Receiver × List UInt8) :=
  match freshPacket p.receiver e with
  | none => []
  | some (seq, node) =>
    Receiver.asked ch kMaxGapFillAttempts (p.receiver.buffer seq node.count node.payload) p.requests

def applies (p : Endpoint χ σ) (e : Recv) : List Nat :=
  match freshPacket p.receiver e with
  | none => []
  | some (seq, node) =>
    let ready := (p.beforeDrain ch seq node.count node.payload).1
    ready.numbersLoop h (size ready.pending) p.handler

def applied (p : Endpoint χ σ) : List Recv → List Nat
  | [] => []
  | e :: rest => p.applies ch h e ++ applied (p.poll ch h e).2 rest

end Endpoint

section Logged

variable {χ σ : Type}

def logged (ch : RequestChannel χ) : RequestChannel (χ × List (List UInt8)) where
  arrivals x sent := ch.arrivals x.1 sent
  after x sent left := (ch.after x.1 sent left, x.2 ++ [sent])

theorem resolveLoop_logged (ch : RequestChannel χ) (attempts : Nat) (r : Receiver) (x : χ) (log : List (List UInt8)) :
    r.resolveLoop (logged ch) attempts (x, log) =
      ((r.resolveLoop ch attempts x).1,
        (r.resolveLoop ch attempts x).2, log ++ (Receiver.asked ch attempts r x).map Prod.snd) := by
  induction attempts generalizing r x log with
  | zero => simp [Receiver.resolveLoop, Receiver.asked]
  | succ attempts ih =>
    simp only [Receiver.resolveLoop, Receiver.asked]
    cases first r.pending with
    | none => simp
    | some entry =>
      by_cases gap : r.nextSeq < entry.1
      · let turn := Receiver.awaitReplies { r with requestsSent := r.requestsSent + 1 }
          (ch.arrivals x (r.request entry.1))
        have next := ih turn.1 (ch.after x (r.request entry.1) turn.2) (log ++ [r.request entry.1])
        rw [List.append_assoc] at next
        simp only [gap, if_true, List.map_cons]
        exact next
      · simp only [gap, if_false, List.map_nil, List.append_nil]

theorem poll_logged (ch : RequestChannel χ) (h : Handler σ) (p : Endpoint χ σ) (log : List (List UInt8)) (e : Recv) :
    (Endpoint.poll (logged ch) h ⟨p.receiver, (p.requests, log), p.handler⟩ e).2 =
      ⟨(p.poll ch h e).2.receiver, ((p.poll ch h e).2.requests, log ++ (p.asked ch e).map Prod.snd),
        (p.poll ch h e).2.handler⟩ := by
  cases fresh : freshPacket p.receiver e with
  | none =>
    obtain ⟨ended, same⟩ := poll_ignores h fresh p.handler
    have plain : p.poll ch h e = _ := same ch p.requests
    rw [same (logged ch), plain, Endpoint.asked, fresh]
    simp
  | some entry =>
    have anything : Genuine (fun _ _ => True) p.receiver.session e := fun _ _ _ _ _ => trivial
    have above := Nat.not_lt.mpr (freshPacket_genuine anything fresh).1
    have writes := poll_fresh (logged ch) h (p := ⟨p.receiver, (p.requests, log), p.handler⟩) fresh
    rw [writes, poll_fresh ch h fresh, Endpoint.accept, if_neg above, Endpoint.accept, if_neg above]
    simp only [Endpoint.beforeDrain, Receiver.resolveGaps, resolveLoop_logged, Endpoint.asked, fresh]

end Logged

def numbers (start n : Nat) : List Nat := (List.range n).map fun i => (start + i) % 2 ^ 64

theorem numbers_append (start n k : Nat) :
    numbers start n ++ numbers ((start + n) % 2 ^ 64) k = numbers start (n + k) := by
  rw [numbers, numbers, numbers, List.range_add, List.map_append, List.map_map]
  refine congrArg _ (List.map_congr_left fun i _ => ?_)
  rw [Function.comp_apply, Nat.mod_add_mod, Nat.add_assoc]

section Applied

variable {χ σ : Type} {ch : RequestChannel χ} {h : Handler σ}

theorem drainLoop_numbers (fuel : Nat) {r : Receiver} (s : σ) (frames : Nat) (bounded : r.nextSeq < 2 ^ 64) :
    ∃ n, r.numbersLoop h fuel s = numbers r.nextSeq n ∧
      (r.drainLoop h fuel s frames).1.nextSeq = (r.nextSeq + n) % 2 ^ 64 ∧
      (r.drainLoop h fuel s frames).2.2 = frames + n := by
  have unmoved : numbers r.nextSeq 0 = [] ∧ r.nextSeq = (r.nextSeq + 0) % 2 ^ 64 :=
    ⟨rfl, (Nat.mod_eq_of_lt bounded).symm⟩
  induction fuel generalizing r s frames with
  | zero => exact ⟨0, unmoved.1.symm, unmoved.2, rfl⟩
  | succ fuel ih =>
    simp only [Receiver.numbersLoop, Receiver.drainLoop]
    cases first r.pending with
    | none => exact ⟨0, unmoved.1.symm, unmoved.2, rfl⟩
    | some entry =>
      by_cases here : entry.1 = r.nextSeq
      · let out := parseStream h entry.2.payload s
        have moved : (r.drainOne entry.1 entry.2 out.2).nextSeq < 2 ^ 64 := Nat.mod_lt _ (by decide)
        obtain ⟨n, applied, nextSeq, counted⟩ := ih out.1 (frames + out.2) moved
          ⟨rfl, (Nat.mod_eq_of_lt moved).symm⟩
        simp only [here, if_true]
        rw [here] at applied nextSeq counted
        refine ⟨out.2 + n, ?_, ?_, ?_⟩
        · rw [← numbers_append, applied]
          rfl
        · rw [nextSeq, ← Nat.add_assoc, ← Nat.mod_add_mod (r.nextSeq + out.2)]
          rfl
        · rw [counted, Nat.add_assoc]
      · simp only [here, if_false]
        exact ⟨0, unmoved.1.symm, unmoved.2, rfl⟩

variable (ch h)

theorem poll_numbers (p : Endpoint χ σ) (bounded : p.receiver.nextSeq < 2 ^ 64) (e : Recv) :
    p.applies ch h e = numbers p.receiver.nextSeq (p.poll ch h e).1 ∧
      (p.poll ch h e).2.receiver.nextSeq = (p.receiver.nextSeq + (p.poll ch h e).1) % 2 ^ 64 := by
  cases fresh : freshPacket p.receiver e with
  | none =>
    obtain ⟨ended, same⟩ := poll_ignores h fresh p.handler
    have plain : p.poll ch h e = _ := same ch p.requests
    rw [plain, Endpoint.applies, fresh]
    exact ⟨rfl, (Nat.mod_eq_of_lt bounded).symm⟩
  | some entry =>
    have anything : Genuine (fun _ _ => True) p.receiver.session e := fun _ _ _ _ _ => trivial
    have above := (freshPacket_genuine anything fresh).1
    let ready := (p.beforeDrain ch entry.1 entry.2.count entry.2.payload).1
    have filled : Filled (fun _ _ => True) p.receiver ready :=
      beforeDrain_filled above trivial fun _ _ _ _ _ _ _ _ _ => trivial
    have kept : ready.nextSeq = p.receiver.nextSeq := filled.nextSeq
    obtain ⟨n, applied, nextSeq, counted⟩ :=
      drainLoop_numbers (h := h) (size ready.pending) p.handler 0 (kept ▸ bounded)
    rw [Nat.zero_add] at counted
    rw [poll_fresh ch h fresh, Endpoint.accept, if_neg (Nat.not_lt.mpr above), Endpoint.applies, fresh]
    simp only [Receiver.drain]
    rw [kept] at applied nextSeq
    exact ⟨applied.trans (congrArg _ counted.symm), nextSeq.trans (by rw [← counted])⟩

theorem run_numbers (p : Endpoint χ σ) (bounded : p.receiver.nextSeq < 2 ^ 64) (arrived : List Recv) :
    ∃ n, p.applied ch h arrived = numbers p.receiver.nextSeq n ∧
      (p.run ch h arrived).receiver.nextSeq = (p.receiver.nextSeq + n) % 2 ^ 64 := by
  induction arrived generalizing p with
  | nil => exact ⟨0, rfl, (Nat.mod_eq_of_lt bounded).symm⟩
  | cons e rest ih =>
    obtain ⟨first, moved⟩ := poll_numbers ch h p bounded e
    obtain ⟨n, later, final⟩ := ih (p.poll ch h e).2 (by rw [moved]; exact Nat.mod_lt _ (by decide))
    refine ⟨(p.poll ch h e).1 + n, ?_, ?_⟩
    · rw [Endpoint.applied, first, later, moved, numbers_append]
    · change ((p.poll ch h e).2.run ch h rest).receiver.nextSeq = _
      rw [final, moved, Nat.mod_add_mod, Nat.add_assoc]

theorem applied_snoc (p : Endpoint χ σ) (arrived : List Recv) (e : Recv) :
    p.applied ch h (arrived ++ [e]) = p.applied ch h arrived ++ (p.run ch h arrived).applies ch h e := by
  induction arrived generalizing p with
  | nil => exact List.append_nil _
  | cons first rest ih =>
    rw [List.cons_append, Endpoint.applied, ih, Endpoint.applied, List.append_assoc]
    rfl

end Applied

-- Every sequence number on the wire is a 64-bit one.
def Narrow (k : Nat) (_ : PendingPacket) : Prop := k < 2 ^ 64

theorem narrow_genuine (session : List UInt8) (e : Recv) : Genuine Narrow session e :=
  fun buf _ _ _ _ => (decode buf).seq.toNat_lt

section Asked

variable {χ σ : Type} {ch : RequestChannel χ} {h : Handler σ}

structure Asks (r : Receiver) (sent : List UInt8) : Prop where
  narrow : Buffers Narrow r
  gap : ∃ front node, first r.pending = some (front, node) ∧ r.nextSeq < front ∧ sent = r.request front

theorem asked_first (ch : RequestChannel χ) (attempts : Nat) {r : Receiver} (x : χ) {front : Nat}
    {node : PendingPacket} (least : first r.pending = some (front, node)) (gap : r.nextSeq < front) :
    (r, r.request front) ∈ Receiver.asked ch (attempts + 1) r x := by
  rw [Receiver.asked, least]
  simp only [gap, if_true]
  exact List.mem_cons_self

theorem asked_asks (attempts : Nat) {r : Receiver} (x : χ) (narrow : Buffers Narrow r) {entry : Receiver × List UInt8}
    (inside : entry ∈ Receiver.asked ch attempts r x) :
    entry.1.session = r.session ∧ entry.1.nextSeq = r.nextSeq ∧ Asks entry.1 entry.2 := by
  induction attempts generalizing r x with
  | zero => cases inside
  | succ attempts ih =>
    rw [Receiver.asked] at inside
    cases least : first r.pending with
    | none => simp [least] at inside
    | some front =>
      by_cases gap : r.nextSeq < front.1
      · simp only [least, gap, if_true, List.mem_cons] at inside
        rcases inside with rfl | later
        · exact ⟨rfl, rfl, narrow, front.1, front.2, least, gap, rfl⟩
        · let counted := { r with requestsSent := r.requestsSent + 1 }
          let turn := counted.awaitReplies (ch.arrivals x (r.request front.1))
          have waited : Filled Narrow counted turn.1 := Filled.awaitReplies fun e _ => narrow_genuine _ e
          have filled : Filled Narrow r turn.1 := (Filled.counted r (r.requestsSent + 1)).trans waited
          obtain ⟨session, nextSeq, asks⟩ := ih _ (narrow.filled filled) later
          exact ⟨session.trans filled.session, nextSeq.trans filled.nextSeq, asks⟩
      · simp [least, gap] at inside

theorem poll_asks {p : Endpoint χ σ} (narrow : Buffers Narrow p.receiver) {e : Recv} {r : Receiver}
    {sent : List UInt8} (inside : (r, sent) ∈ p.asked ch e) :
    r.session = p.receiver.session ∧ r.nextSeq = p.receiver.nextSeq ∧ Asks r sent := by
  rw [Endpoint.asked] at inside
  cases fresh : freshPacket p.receiver e with
  | none => simp [fresh] at inside
  | some entry =>
    simp only [fresh] at inside
    obtain ⟨above, carries⟩ := freshPacket_genuine (narrow_genuine _ e) fresh
    have filled := Filled.buffer p.receiver entry.1 entry.2.count entry.2.payload above carries
    obtain ⟨session, nextSeq, asks⟩ := asked_asks _ _ (narrow.filled filled) inside
    exact ⟨session.trans filled.session, nextSeq.trans filled.nextSeq, asks⟩

theorem request_header {r : Receiver} (id : SessionId r.session) (front : Nat) :
    decode (r.request front) =
      ⟨r.session, UInt64.ofNat r.nextSeq, UInt16.ofNat (min (front - r.nextSeq) 0xFFFE)⟩ := by
  rw [← List.append_nil (r.request front)]
  exact decode_encode id []

theorem Asks.covers {r : Receiver} {sent : List UInt8} (asks : Asks r sent) (id : SessionId r.session) :
    (decode sent).session = r.session ∧ (decode sent).seq.toNat = r.nextSeq ∧
      1 ≤ (decode sent).count.toNat ∧ (decode sent).count.toNat ≤ 0xFFFE ∧
      ∀ k, (decode sent).seq.toNat ≤ k → k < (decode sent).seq.toNat + (decode sent).count.toNat →
        r.pending.lookup k = none := by
  obtain ⟨narrow, front, node, least, gap, rfl⟩ := asks
  obtain ⟨found, smallest⟩ := first_eq_some.mp least
  have fits : front < 2 ^ 64 := narrow front node found
  have seq : (UInt64.ofNat r.nextSeq).toNat = r.nextSeq :=
    UInt64.toNat_ofNat_of_lt' (show r.nextSeq < 2 ^ 64 by omega)
  have count : (UInt16.ofNat (min (front - r.nextSeq) 0xFFFE)).toNat = min (front - r.nextSeq) 0xFFFE :=
    UInt16.toNat_ofNat_of_lt' (show _ < 65536 by omega)
  rw [request_header id]
  simp only [seq, count, true_and]
  refine ⟨by omega, by omega, fun k low high => ?_⟩
  by_contra there
  obtain ⟨waiting, here⟩ := Option.ne_none_iff_exists'.mp there
  have := smallest k waiting here
  omega

theorem applied_below {n k : Nat} (unwrapped : n + 1 < 2 ^ 64) (inside : k ∈ numbers 1 n) : k < 1 + n := by
  obtain ⟨i, position, rfl⟩ := List.mem_map.mp inside
  have := List.mem_range.mp position
  omega

end Asked

def ReplyPacket (session framed : List UInt8) (k : Nat) (e : Recv) : Prop :=
  ∃ buf payload, e.packet = some buf ∧ decode buf = ⟨session, UInt64.ofNat k, 1⟩ ∧
    (frames framed)[k - 1]? = some payload ∧ body buf = frame payload ∧
    ∀ {σ : Type} (h : Handler σ) (s : σ), parseStream h (body buf) s = (h (event payload) s, 1)

theorem parseStream_frame {σ : Type} {payload : List UInt8} (framable : Framable payload) (h : Handler σ) (s : σ) :
    parseStream h (frame payload) s = (h (event payload) s, 1) := by
  rw [parseStream_feed, ← List.append_nil (frame payload), frames_frame framable.1 framable.2, frames_nil]
  rfl

theorem sendReplyPacket_reply {s : Sender} {framed : List UInt8} (loaded : Loaded s (frames framed))
    (i : Fin s.messages.length) : ReplyPacket s.session framed (seqOf i) (s.sendReplyPacket i) := by
  have inside : i.val < (frames framed).length := loaded_length loaded ▸ i.isLt
  have sent : s.messages.get i = frame (frames framed)[i.val] := by
    rw [loaded_get loaded, message, Nat.add_sub_cancel, List.getD_eq_getElem _ _ inside]
  have framable := loaded.framable _ (List.getElem_mem inside)
  refine ⟨_, (frames framed)[i.val], datagram_packet loaded.id, decode_encode loaded.id _, ?_, ?_, fun h state => ?_⟩
  · rw [seqOf, Nat.add_sub_cancel]
    exact List.getElem?_eq_getElem inside
  · rw [body_encode loaded.id, sent]
  · rw [body_encode loaded.id, sent, parseStream_frame framable]

theorem serve_replies {s : Sender} {framed : List UInt8} (loaded : Loaded s (frames framed)) (seq : UInt64)
    (count : UInt16) (extra : List UInt8) :
    List.Forall₂ (ReplyPacket s.session framed)
      (if 1 ≤ seq.toNat ∧ seq.toNat ≤ (frames framed).length then
        List.range' seq.toNat (min (seq.toNat + count.toNat - 1) (frames framed).length + 1 - seq.toNat)
      else [])
      ((s.serveOneRequest { result := some (encode ⟨s.session, seq, count⟩ ++ extra) }).2.map s.sendReplyPacket) := by
  have length := loaded_length loaded
  have small := loaded.small
  have wanted : (s.serveLoop seq.toNat 0 count.toNat).map seqOf =
      if 1 ≤ seq.toNat ∧ seq.toNat ≤ (frames framed).length then
        List.range' seq.toNat (min (seq.toNat + count.toNat - 1) (frames framed).length + 1 - seq.toNat)
      else [] := by
    by_cases known : 1 ≤ seq.toNat ∧ seq.toNat ≤ (frames framed).length
    · have answered : (s.serveLoop seq.toNat 0 count.toNat).map seqOf = _ :=
        serveLoop_known (by omega) 0 count.toNat (by omega) (by omega)
      rw [if_pos known, answered, length, Nat.add_zero]
      congr 1
      omega
    · rw [if_neg known, serveLoop_unknown seq.toNat_lt (length ▸ known), List.map_nil]
  rw [serve_header loaded.id, ← wanted, List.forall₂_map_left_iff, List.forall₂_map_right_iff, List.forall₂_same]
  exact fun i _ => sendReplyPacket_reply loaded i

/-- Every request, from whatever state the receiver has reached, asks for numbers that
are neither waiting nor applied (as long as next_seq_ has not wrapped around); and
the sender answers any request with the packets of the known numbers in its range. -/
theorem requests_and_replies_fit (session : List UInt8) (id : SessionId session) :
    (∀ {χ σ : Type} (ch : RequestChannel χ) (h : Handler σ) (x : χ) (start : σ) (arrived : List Recv) (e : Recv),
      let p := Endpoint.run ch h ⟨{ session }, x, start⟩ arrived
      let applied := Endpoint.applied ch h ⟨{ session }, x, start⟩ arrived
      ∀ r sent, (r, sent) ∈ p.asked ch e →
        let hdr := decode sent
        hdr.session = session ∧ hdr.seq.toNat = r.nextSeq ∧ r.nextSeq = p.receiver.nextSeq ∧
          1 ≤ hdr.count.toNat ∧ hdr.count.toNat ≤ 0xFFFE ∧
          ∀ k, hdr.seq.toNat ≤ k → k < hdr.seq.toNat + hdr.count.toNat →
            r.pending.lookup k = none ∧ (applied.length + 1 < 2 ^ 64 → k ∉ applied)) ∧
    ∀ framed : List UInt8, framed.length < 2 ^ 64 → ∀ (seq : UInt64) (count : UInt16) (extra : List UInt8),
      let s := Sender.load { session } framed
      let n := (frames framed).length
      List.Forall₂ (ReplyPacket session framed)
        (if 1 ≤ seq.toNat ∧ seq.toNat ≤ n then
          List.range' seq.toNat (min (seq.toNat + count.toNat - 1) n + 1 - seq.toNat)
        else [])
        ((s.serveOneRequest { result := some (encode ⟨session, seq, count⟩ ++ extra) }).2.map s.sendReplyPacket) := by
  refine ⟨?_, fun framed fits => serve_replies (load_loaded (s := { session }) id fits)⟩
  intro χ σ ch h x start arrived e p applied r sent inside
  obtain ⟨n, numbered, nextSeq⟩ := run_numbers ch h ⟨{ session }, x, start⟩
    (show 1 < 2 ^ 64 by decide) arrived
  have state : p.receiver.session = session ∧ Buffers Narrow p.receiver :=
    run_invariant ⟨{ session }, x, start⟩ (fun q => Buffers Narrow q.receiver)
      (fun e _ => narrow_genuine _ e) (fun k node found => by cases found)
      fun q e _ held genuine => poll_buffers (fun _ _ e _ => narrow_genuine _ e) genuine held
  obtain ⟨same, kept, asks⟩ := poll_asks state.2 inside
  obtain ⟨sessions, seq, positive, clamped, waits⟩ := asks.covers (same.trans state.1 ▸ id)
  refine ⟨sessions.trans (same.trans state.1), seq, kept, positive, clamped, fun k low high => ?_⟩
  refine ⟨waits k low high, fun unwrapped there => ?_⟩
  have below : k < 1 + n := by
    have all : applied = numbers 1 n := numbered
    rw [all, numbers, List.length_map, List.length_range] at unwrapped
    exact applied_below unwrapped (all ▸ there)
  have next : p.receiver.nextSeq = 1 + n := by
    have count : applied.length = n := by simp [applied, numbered, numbers]
    exact nextSeq.trans (Nat.mod_eq_of_lt (show 1 + n < 2 ^ 64 by omega))
  rw [seq, kept, next] at low
  omega

theorem requests_and_replies_fit_gap :
    (∃ r sent, (r, sent) ∈ (demoRun []).asked silent (batch 3 1) ∧ (decode sent).seq.toNat = 1 ∧
      r.pending.lookup 1 = none) ∧
    List.Forall₂ (ReplyPacket demoSession (stream [[65], [66]])) [1, 2]
      (((Sender.load { session := demoSession } (stream [[65], [66]])).serveOneRequest
        { result := some (encode ⟨demoSession, 1, 2⟩ ++ []) }).2.map
          (Sender.load { session := demoSession } (stream [[65], [66]])).sendReplyPacket) := by
  obtain ⟨asked, answered⟩ := requests_and_replies_fit demoSession rfl
  refine ⟨?_, answered (stream [[65], [66]]) (by decide) 1 2 []⟩
  have some_request : (demoRun []).asked silent (batch 3 1) ≠ [] := by decide +kernel
  obtain ⟨⟨r, sent⟩, rest, whole⟩ := List.exists_cons_of_ne_nil some_request
  have inside : (r, sent) ∈ (demoRun []).asked silent (batch 3 1) := by simp [whole]
  obtain ⟨-, seq, kept, positive, -, covered⟩ := asked silent _ () () [] (batch 3 1) r sent inside
  have first : (decode sent).seq.toNat = 1 := seq.trans kept
  exact ⟨r, sent, inside, first, (covered 1 (by omega) (by omega)).1⟩

section Wrapped

variable {χ σ : Type} (ch : RequestChannel χ) (h : Handler σ)

theorem alone_atLeast {r : Receiver} {node : PendingPacket}
    (alone : r.pending = (∅ : Map Nat PendingPacket).insert r.nextSeq node) : AtLeast r := by
  intro k q there
  rw [alone, lookup_insert_eq] at there
  split at there
  next here => exact Nat.le_of_eq here.symm
  next => cases there

theorem drain_alone {r : Receiver} {payload : List UInt8} (framable : Framable payload)
    (alone : r.pending = (∅ : Map Nat PendingPacket).insert r.nextSeq ⟨1, frame payload⟩) (s : σ) :
    r.drain h s = (r.drainOne r.nextSeq ⟨1, frame payload⟩ 1, h (event payload) s, 1) := by
  have found : r.pending.lookup r.nextSeq = some ⟨1, frame payload⟩ := by rw [alone, AList.lookup_insert]
  have parsed := parseStream_frame framable h s
  have one : size r.pending = 1 := by
    rw [alone, size_insert_fresh _ rfl]
    rfl
  rw [Receiver.drain, one, Receiver.drainLoop, (alone_atLeast alone).front found]
  simp only [if_true, parsed]
  rfl

theorem poll_next (p : Endpoint χ σ) (id : SessionId p.receiver.session) (empty : p.receiver.pending = ∅)
    (narrow : p.receiver.nextSeq < 2 ^ 64) {payload : List UInt8} (framable : Framable payload) :
    let out := p.poll ch h (datagram p.receiver.session p.receiver.nextSeq 1 (frame payload))
    out.1 = 1 ∧ out.2.receiver.pending = ∅ := by
  intro out
  let r := p.receiver.buffer p.receiver.nextSeq 1 (frame payload)
  have fresh : freshPacket p.receiver (datagram p.receiver.session p.receiver.nextSeq 1 (frame payload)) =
      some (p.receiver.nextSeq, ⟨1, frame payload⟩) :=
    freshPacket_datagram id narrow (show (1 : UInt16) ≠ kHeartbeat by decide)
      (show (1 : UInt16) ≠ kEndOfSession by decide) (Nat.le_refl p.receiver.nextSeq)
  have kept : r.nextSeq = p.receiver.nextSeq := buffer_nextSeq ..
  have alone : r.pending = (∅ : Map Nat PendingPacket).insert r.nextSeq ⟨1, frame payload⟩ := by
    rw [kept]
    exact buffer_alone empty _ _ _
  have found : r.pending.lookup r.nextSeq = some ⟨1, frame payload⟩ := by rw [alone, AList.lookup_insert]
  have ready : p.beforeDrain ch p.receiver.nextSeq 1 (frame payload) = (r, p.requests) :=
    resolveLoop_closed ch _ _ (alone_atLeast alone) (by rw [found]; exact Option.some_ne_none _)
  have applied : out = (1, ⟨r.drainOne r.nextSeq ⟨1, frame payload⟩ 1, p.requests, h (event payload) p.handler⟩) := by
    simp only [out]
    rw [poll_fresh ch h fresh, Endpoint.accept, if_neg (Nat.lt_irrefl _)]
    simp only [ready, drain_alone h framable alone]
  rw [applied]
  refine ⟨rfl, eq_empty fun k => ?_⟩
  rw [drainOne_lookup, alone, lookup_insert_eq]
  split
  next => rfl
  next other => rfl

def inOrder (session : List UInt8) (n : Nat) : List Recv :=
  (List.range n).map fun i => datagram session (i + 1) 1 (frame [65])

theorem run_inOrder {session : List UInt8} (id : SessionId session) (x : χ) (start : σ) {n : Nat}
    (fits : n < 2 ^ 64) :
    let q := Endpoint.run ch h ⟨{ session }, x, start⟩ (inOrder session n)
    q.receiver.session = session ∧ q.receiver.pending = ∅ ∧ q.receiver.nextSeq = (1 + n) % 2 ^ 64 ∧
      Endpoint.applied ch h ⟨{ session }, x, start⟩ (inOrder session n) = numbers 1 n := by
  induction n with
  | zero => exact ⟨rfl, rfl, rfl, rfl⟩
  | succ n ih =>
    obtain ⟨same, empty, nextSeq, applied⟩ := ih (by omega)
    let q := Endpoint.run ch h ⟨{ session }, x, start⟩ (inOrder session n)
    have here : q.receiver.nextSeq = n + 1 := by
      rw [nextSeq, Nat.mod_eq_of_lt (by omega), Nat.add_comm]
    have last : inOrder session (n + 1) =
        inOrder session n ++ [datagram q.receiver.session q.receiver.nextSeq 1 (frame [65])] := by
      rw [inOrder, List.range_succ, List.map_append, inOrder, same, here]
      rfl
    obtain ⟨one, emptied⟩ := poll_next ch h q (same ▸ id) empty (by omega)
      (show Framable [65] from ⟨by decide, by decide⟩)
    obtain ⟨first, moved⟩ := poll_numbers ch h q (by omega)
      (datagram q.receiver.session q.receiver.nextSeq 1 (frame [65]))
    rw [one] at first moved
    rw [last, run_append, applied_snoc, applied]
    refine ⟨(poll_session q _).trans same, emptied, ?_, ?_⟩
    · change (q.poll ch h _).2.receiver.nextSeq = _
      rw [moved, here, Nat.add_comm 1 (n + 1)]
    · change _ ++ q.applies ch h _ = _
      rw [first, nextSeq, numbers_append]

end Wrapped

-- The message with the last number there is takes next_seq_ from 2^64 - 1 to zero.
theorem wrapped_delivery_decreases :
    ¬∀ (χ σ : Type) (ch : RequestChannel χ) (h : Handler σ) (m : Nat → List UInt8)
      (_ : ∀ i, 1 ≤ i → Framable (m i)) (session : List UInt8) (x : χ) (start : σ)
      (_ : ch.Genuine (CarriesAny m) session) (arrived : List Recv)
      (_ : ∀ e ∈ arrived, Genuine (CarriesAny m) session e),
      let p := Endpoint.run ch h ⟨{ session }, x, start⟩ arrived
      p.handler = feed h start (messages m 1 (p.receiver.nextSeq - 1)) ∧
        p.receiver.pendingCount ≤ kMaxPendingPackets ∧
        ∀ e, Genuine (CarriesAny m) session e → p.receiver.nextSeq ≤ (p.poll ch h e).2.receiver.nextSeq := by
  intro delivers
  let m : Nat → List UInt8 := fun _ => [65]
  let unmoved : Handler Unit := fun _ s => s
  obtain ⟨n, whole⟩ : ∃ n, n + 2 = 2 ^ 64 := ⟨2 ^ 64 - 2, by decide⟩
  have framable (i : Nat) (_ : 1 ≤ i) : Framable (m i) := ⟨by decide, by decide⟩
  have genuine (seq : Nat) (fits : seq < 2 ^ 64) :
      Genuine (CarriesAny m) demoSession (datagram demoSession seq 1 (frame [65])) :=
    genuine_datagram rfl fits fun _ => ⟨1, by simp [messages, m]⟩
  have arrives : ∀ e ∈ inOrder demoSession n, Genuine (CarriesAny m) demoSession e := by
    intro e inside
    obtain ⟨i, low, rfl⟩ := List.mem_map.mp inside
    have bound := List.mem_range.mp low
    exact genuine (i + 1) (by omega)
  obtain ⟨same, empty, nextSeq, -⟩ := run_inOrder silent unmoved
    (show SessionId demoSession from rfl) () () (show n < 2 ^ 64 by omega)
  let p := Endpoint.run silent unmoved ⟨{ session := demoSession }, (), ()⟩ (inOrder demoSession n)
  have last : p.receiver.nextSeq = n + 1 := by
    rw [nextSeq, Nat.mod_eq_of_lt (by omega), Nat.add_comm]
  let e := datagram p.receiver.session p.receiver.nextSeq 1 (frame [65])
  have genuine_last : Genuine (CarriesAny m) demoSession e := by
    change Genuine _ _ (datagram p.receiver.session p.receiver.nextSeq 1 (frame [65]))
    rw [last, show p.receiver.session = demoSession from same]
    exact genuine (n + 1) (by omega)
  obtain ⟨one, -⟩ := poll_next silent unmoved p (same ▸ rfl) empty (by omega)
    (show Framable [65] from ⟨by decide, by decide⟩)
  obtain ⟨-, moved⟩ := poll_numbers silent unmoved p (by omega) e
  have zero : (p.poll silent unmoved e).2.receiver.nextSeq = 0 := by
    rw [moved, one, last, whole, Nat.mod_self]
  obtain ⟨-, -, grows⟩ := delivers Unit Unit silent unmoved m framable demoSession () ()
    (fun _ _ _ inside => (List.not_mem_nil inside).elim) (inOrder demoSession n) arrives
  have next : p.receiver.nextSeq ≤ (p.poll silent unmoved e).2.receiver.nextSeq := grows e genuine_last
  omega

-- After 2^64 - 1 messages next_seq_ is zero again, and the gap before a packet with
-- number 3 is asked for from zero on, although 1 and 2 have been applied.
theorem wrapped_request_covers_applied :
    ¬∀ (session : List UInt8) (_ : SessionId session) (χ σ : Type) (ch : RequestChannel χ) (h : Handler σ) (x : χ)
      (start : σ) (arrived : List Recv) (e : Recv),
      ∀ r sent, (r, sent) ∈ (Endpoint.run ch h ⟨{ session }, x, start⟩ arrived).asked ch e →
        ∀ k, (decode sent).seq.toNat ≤ k → k < (decode sent).seq.toNat + (decode sent).count.toNat →
          k ∉ Endpoint.applied ch h ⟨{ session }, x, start⟩ arrived := by
  intro covered
  let session := demoSession
  obtain ⟨n, whole⟩ : ∃ n, n + 1 = 2 ^ 64 := ⟨2 ^ 64 - 1, by decide⟩
  obtain ⟨same, empty, nextSeq, applied⟩ := run_inOrder silent (fun _ (s : Unit) => s)
    (show SessionId session from rfl) () () (show n < 2 ^ 64 by omega)
  let q := Endpoint.run silent (fun _ (s : Unit) => s) ⟨{ session }, (), ()⟩ (inOrder session n)
  have zero : q.receiver.nextSeq = 0 := by rw [nextSeq, Nat.add_comm, whole, Nat.mod_self]
  let e := datagram session 3 1 (frame [65])
  have fresh : freshPacket q.receiver e = some (3, ⟨1, frame [65]⟩) := by
    rw [show e = datagram q.receiver.session 3 1 (frame [65]) by rw [same]]
    exact freshPacket_datagram (by rw [same]; rfl) (by decide) (by decide) (by decide) (by omega)
  let r := q.receiver.buffer 3 1 (frame [65])
  have kept : r.nextSeq = 0 := (buffer_nextSeq ..).trans zero
  have front : first r.pending = some (3, ⟨1, frame [65]⟩) := by
    rw [show r.pending = _ from buffer_alone empty _ _ _]
    rfl
  have inside : (r, r.request 3) ∈ q.asked silent e := by
    rw [Endpoint.asked, fresh]
    exact asked_first silent 4 () front (show r.nextSeq < 3 by omega)
  have header : decode (r.request 3) = ⟨r.session, 0, 3⟩ := by
    have id : SessionId r.session := by
      have filled : Filled (fun _ _ => True) q.receiver r :=
        Filled.buffer q.receiver 3 1 (frame [65]) (by omega) trivial
      rw [filled.session, same]
      rfl
    rw [request_header id, kept]
    rfl
  refine covered session rfl Unit Unit silent _ () () (inOrder session n) e r _ inside 1 ?_ ?_ ?_
  · rw [header]
    exact Nat.zero_le _
  · rw [header]
    exact show 1 < (0 : UInt64).toNat + (3 : UInt16).toNat by decide
  · rw [applied]
    exact List.mem_map.mpr ⟨0, List.mem_range.mpr (by omega), rfl⟩

end ItchLob.Net
