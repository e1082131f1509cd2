import ItchLob.Itch.Encode

set_option autoImplicit false

namespace ItchLob.Itch

open Framing

def handlerCalls (data : List UInt8) : List Event := (parseStream (fun e calls => calls ++ [e]) data []).1

inductive DamagedTail : List UInt8 → Prop where
  | empty : DamagedTail []
  | single (b : UInt8) : DamagedTail [b]
  | zeroLength (rest : List UInt8) : DamagedTail (0 :: 0 :: rest)
  | short (a b : UInt8) (rest : List UInt8) (missing : rest.length < (be16 [a, b]).toNat) :
    DamagedTail (a :: b :: rest)

def payloadStart (data : List UInt8) (k : Nat) : Nat := (stream ((frames data).take k)).length + 2

def overwrite (data : List UInt8) (start : Nat) (bytes : List UInt8) : List UInt8 :=
  data.take start ++ bytes ++ data.drop (start + bytes.length)

theorem handlerCalls_events (data : List UInt8) : handlerCalls data = events data := by
  have recorded (calls done : List Event) : calls.foldl (fun s e => s ++ [e]) done = done ++ calls := by
    induction calls generalizing done with
    | nil => simp
    | cons e rest ih => rw [List.foldl_cons, ih, List.append_assoc, List.singleton_append]
  rw [handlerCalls, parseStream_events, recorded, List.nil_append]

theorem DamagedTail.incomplete {tail : List UInt8} (damaged : DamagedTail tail) : ¬ Complete tail := by
  cases damaged with
  | empty => decide
  | single b => exact fun complete => absurd complete.1 (by simp)
  | zeroLength rest => exact fun complete => complete.2.1 (by simp [lengthPrefix])
  | short a b rest missing =>
    intro complete
    have fits := complete.2.2
    rw [be16_lengthPrefix] at missing
    simp only [lengthPrefix, List.getD_cons_zero, List.getD_cons_succ, List.length_cons] at missing fits
    omega

section Overwrite

variable {data q : List UInt8} {k : Nat} (inside : k < (frames data).length)
  (same : q.length = ((frames data).get ⟨k, inside⟩).length)
include same

theorem frames_overwrite : frames (overwrite data (payloadStart data k) q) = (frames data).set k q := by
  have framable := frames_framable data
  have fresh : Framable q := by
    rw [Framable, same]
    exact framable _ ((frames data).get_mem ⟨k, inside⟩)
  obtain ⟨before, p, after, order, count, here⟩ : ∃ before p after, frames data = before ++ p :: after ∧
      before.length = k ∧ p.length = q.length :=
    ⟨(frames data).take k, (frames data).get ⟨k, inside⟩, (frames data).drop (k + 1),
      by rw [List.get_eq_getElem, ← List.drop_eq_getElem_cons inside, List.take_append_drop],
      List.length_take_of_le (Nat.le_of_lt inside), same.symm⟩
  let lengthBytes := [UInt8.ofNat (q.length / 256), UInt8.ofNat q.length]
  have split : data = (stream before ++ lengthBytes) ++ (p ++ (stream after ++ residue data)) := by
    conv_lhs => rw [← stream_residue data, order, stream_append, stream_cons, frame, here]
    simp [lengthBytes]
  have start : payloadStart data k = (stream before ++ lengthBytes).length := by
    rw [payloadStart, order, ← count, List.take_left]
    simp [lengthBytes]
  have written : overwrite data (payloadStart data k) q =
      stream before ++ (frame q ++ (stream after ++ residue data)) := by
    rw [overwrite, start, split, List.take_left, ← here, ← List.drop_drop, List.drop_left, List.drop_left,
      ← split]
    simp [lengthBytes, frame]
  have keep : ∀ f ∈ before, Framable f := fun f member => framable f (by simp [order, member])
  have rest : ∀ f ∈ after, Framable f := fun f member => framable f (by simp [order, member])
  rw [written, frames_append before keep, frames_frame fresh.1 fresh.2, frames_append after rest,
    frames_incomplete (residue_incomplete data), List.append_nil, order, ← count]
  simp

end Overwrite

/-- The walk never loses step. Over framed payloads and a damaged tail it visits
each payload once, in order and whole; whatever stands in one payload, the other
frames are read alike; and a cut keeps a prefix of the calls. -/
theorem parseStream_in_step {σ : Type} (visit : List UInt8 → Nat → σ → σ) (h : Handler σ) (s : σ)
    (payloads : List (List UInt8)) (framable : ∀ p ∈ payloads, 1 ≤ p.length ∧ p.length ≤ 65535)
    (tail : List UInt8) (damaged : DamagedTail tail) :
    walk visit (Encode.stream payloads ++ tail) s =
        (payloads.foldl (fun s p => visit p p.length s) s, payloads.length) ∧
      parseStream h (Encode.stream payloads ++ tail) s =
        (payloads.foldl (fun s p => (dispatch h p p.length s).2) s, payloads.length) ∧
      (∀ (data q : List UInt8) (k : Nat) (inside : k < (frames data).length),
        q.length = ((frames data).get ⟨k, inside⟩).length →
        handlerCalls (overwrite data (payloadStart data k) q) = (handlerCalls data).set k (event q)) ∧
      ∀ (data : List UInt8) (n : Nat), handlerCalls (data.take n) <+: handlerCalls data := by
  have split : frames (Encode.stream payloads ++ tail) = payloads := by
    rw [Encode.stream_eq, frames_append payloads fun p member => ?_, frames_incomplete damaged.incomplete,
      List.append_nil]
    have bounds := framable p member
    exact ⟨bounds.1, by omega⟩
  refine ⟨?_, ?_, ?_, ?_⟩
  · rw [walk_frames, split]
  · rw [parseStream_walk, walk_frames, split]
  · intro data q k inside same
    rw [handlerCalls_events, handlerCalls_events, events, events, frames_overwrite inside same, List.map_set]
  · intro data n
    rw [handlerCalls_events, handlerCalls_events]
    exact (frames_prefix_of (List.take_prefix n data)).map event

theorem parseStream_in_step_two :
    DamagedTail [0, 9, 65] ∧
      parseStream (fun e calls => calls ++ [e]) (Encode.stream [[83, 1], [90]] ++ [0, 9, 65]) [] =
        ([.other 83 2, .other 90 1], 2) := by
  have damaged : DamagedTail [0, 9, 65] := .short 0 9 [65] (by decide)
  exact ⟨damaged, (parseStream_in_step (fun _ _ s => s) (fun e calls => calls ++ [e]) [] [[83, 1], [90]]
    (by decide) [0, 9, 65] damaged).2.1⟩

end ItchLob.Itch
