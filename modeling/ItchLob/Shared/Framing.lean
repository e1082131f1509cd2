import Mathlib

set_option autoImplicit false

namespace Framing

-- Length-prefixed framing: two big-endian length bytes, then the payload. A
-- zero length or a frame longer than what is left ends the walk.

def lengthPrefix (rest : List UInt8) : Nat :=
  (rest.getD 0 0).toNat * 256 + (rest.getD 1 0).toNat

def frame (payload : List UInt8) : List UInt8 :=
  UInt8.ofNat (payload.length / 256) :: UInt8.ofNat payload.length :: payload

def Complete (rest : List UInt8) : Prop :=
  2 ≤ rest.length ∧ lengthPrefix rest ≠ 0 ∧ 2 + lengthPrefix rest ≤ rest.length

instance (rest : List UInt8) : Decidable (Complete rest) :=
  inferInstanceAs (Decidable (_ ∧ _ ∧ _))

def payload (rest : List UInt8) : List UInt8 := (rest.drop 2).take (lengthPrefix rest)

def beyond (rest : List UInt8) : List UInt8 := rest.drop (2 + lengthPrefix rest)

def splitFrames : Nat → List UInt8 → List (List UInt8)
  | 0, _ => []
  | fuel + 1, rest =>
    if Complete rest then payload rest :: splitFrames fuel (beyond rest) else []

def frames (bytes : List UInt8) : List (List UInt8) := splitFrames bytes.length bytes

theorem payload_length {rest : List UInt8} (complete : Complete rest) :
    (payload rest).length = lengthPrefix rest := by
  have fits := complete.2.2
  simp only [payload, List.length_take, List.length_drop]
  omega

theorem beyond_length {rest : List UInt8} (complete : Complete rest) :
    (beyond rest).length < rest.length := by
  obtain ⟨-, -, fits⟩ := complete
  simp only [beyond, List.length_drop]
  omega

theorem splitFrames_fuel (fuel : Nat) (rest : List UInt8) (enough : rest.length ≤ fuel) :
    splitFrames fuel rest = frames rest := by
  have general (small large : Nat) (bytes : List UInt8) (short : bytes.length ≤ small)
      (ordered : small ≤ large) : splitFrames large bytes = splitFrames small bytes := by
    induction small generalizing large bytes with
    | zero =>
      have empty : bytes = [] := List.length_eq_zero_iff.mp (by omega)
      cases large <;> simp [splitFrames, empty, Complete]
    | succ small ih =>
      obtain ⟨large, rfl⟩ : ∃ n, large = n + 1 := ⟨large - 1, by omega⟩
      by_cases complete : Complete bytes
      · have shorter := beyond_length complete
        simp only [splitFrames, complete, if_true]
        rw [ih large (beyond bytes) (by omega) (by omega)]
      · simp [splitFrames, complete]
  exact general _ _ _ (Nat.le_refl _) enough

theorem frames_complete {rest : List UInt8} (complete : Complete rest) :
    frames rest = payload rest :: frames (beyond rest) := by
  have shorter := beyond_length complete
  obtain ⟨fuel, size⟩ : ∃ n, rest.length = n + 1 := ⟨rest.length - 1, by omega⟩
  simp only [frames, size, splitFrames, complete, if_true]
  rw [splitFrames_fuel fuel (beyond rest) (by omega), frames]

theorem frames_incomplete {rest : List UInt8} (incomplete : ¬ Complete rest) : frames rest = [] := by
  unfold frames
  cases rest.length <;> simp [splitFrames, incomplete]

@[simp] theorem frames_nil : frames [] = [] := rfl

section Stream

variable {p rest : List UInt8}

theorem frame_length (p : List UInt8) : (frame p).length = 2 + p.length := by
  simp [frame]
  omega

theorem lengthPrefix_frame (bound : p.length < 65536) (rest : List UInt8) :
    lengthPrefix (frame p ++ rest) = p.length := by
  simp only [lengthPrefix, frame, List.cons_append, List.getD_cons_zero, List.getD_cons_succ,
    UInt8.toNat_ofNat']
  omega

theorem payload_frame (bound : p.length < 65536) (rest : List UInt8) :
    payload (frame p ++ rest) = p := by
  rw [payload, lengthPrefix_frame bound]
  simp [frame]

theorem beyond_frame (bound : p.length < 65536) (rest : List UInt8) :
    beyond (frame p ++ rest) = rest := by
  rw [beyond, lengthPrefix_frame bound, ← frame_length, List.drop_left]

theorem complete_frame (positive : 0 < p.length) (bound : p.length < 65536) (rest : List UInt8) :
    Complete (frame p ++ rest) := by
  refine ⟨?_, ?_, ?_⟩ <;> simp only [lengthPrefix_frame bound, List.length_append, frame_length] <;>
    omega

theorem frames_frame (positive : 0 < p.length) (bound : p.length < 65536) (rest : List UInt8) :
    frames (frame p ++ rest) = p :: frames rest := by
  rw [frames_complete (complete_frame positive bound rest), payload_frame bound, beyond_frame bound]

theorem frame_payload (complete : Complete rest) :
    frame (payload rest) = rest.take (2 + lengthPrefix rest) := by
  have size := payload_length complete
  have two := complete.1
  rcases rest with _ | ⟨a, _ | ⟨b, body⟩⟩
  · simp at two
  · simp at two
  · have low := b.toNat_lt
    rw [frame, size]
    simp only [payload, lengthPrefix, List.getD_cons_zero, List.getD_cons_succ, List.drop_succ_cons,
      List.drop_zero, Nat.add_comm 2, List.take_succ_cons, List.cons.injEq, and_true]
    refine ⟨?_, ?_⟩
    · rw [show (a.toNat * 256 + b.toNat) / 256 = a.toNat by omega]
      exact UInt8.ofNat_toNat
    · apply UInt8.toNat_inj.mp
      rw [UInt8.toNat_ofNat']
      omega

end Stream

def Framable (payload : List UInt8) : Prop := 0 < payload.length ∧ payload.length < 65536

theorem payload_framable {rest : List UInt8} (complete : Complete rest) : Framable (payload rest) := by
  obtain ⟨two, positive, fits⟩ := complete
  have high := (rest.getD 0 0).toNat_lt
  have low := (rest.getD 1 0).toNat_lt
  have bound : lengthPrefix rest < 65536 := by
    unfold lengthPrefix
    omega
  simp only [Framable, payload, List.length_take, List.length_drop]
  omega

theorem frames_framable (bytes : List UInt8) : ∀ p ∈ frames bytes, Framable p := by
  have general (fuel : Nat) (rest : List UInt8) : ∀ p ∈ splitFrames fuel rest, Framable p := by
    induction fuel generalizing rest with
    | zero => exact fun _ inside => nomatch inside
    | succ fuel ih =>
      intro p inside
      rw [splitFrames] at inside
      split at inside
      next complete =>
        rcases List.mem_cons.mp inside with rfl | later
        · exact payload_framable complete
        · exact ih _ p later
      next => cases inside
  exact general _ _

theorem frames_length (bytes : List UInt8) : 3 * (frames bytes).length ≤ bytes.length := by
  have general (fuel : Nat) (rest : List UInt8) : 3 * (splitFrames fuel rest).length ≤ rest.length := by
    induction fuel generalizing rest with
    | zero => simp [splitFrames]
    | succ fuel ih =>
      rw [splitFrames]
      split
      next complete =>
        have shorter := ih (beyond rest)
        obtain ⟨two, positive, fits⟩ := complete
        simp only [beyond, List.length_drop, List.length_cons] at shorter ⊢
        omega
      next => simp
  exact general _ _

def stream (payloads : List (List UInt8)) : List UInt8 := payloads.flatMap frame

@[simp] theorem stream_nil : stream [] = [] := rfl

@[simp] theorem stream_cons (p : List UInt8) (payloads : List (List UInt8)) :
    stream (p :: payloads) = frame p ++ stream payloads := rfl

theorem stream_append (first second : List (List UInt8)) :
    stream (first ++ second) = stream first ++ stream second := List.flatMap_append

theorem frames_append (payloads : List (List UInt8)) (framable : ∀ p ∈ payloads, Framable p)
    (rest : List UInt8) : frames (stream payloads ++ rest) = payloads ++ frames rest := by
  induction payloads with
  | nil => rfl
  | cons p later ih =>
    have head := framable p (by simp)
    rw [stream_cons, List.append_assoc, frames_frame head.1 head.2,
      ih fun q member => framable q (by simp [member]), List.cons_append]

theorem frames_stream (payloads : List (List UInt8)) (framable : ∀ p ∈ payloads, Framable p) :
    frames (stream payloads) = payloads := by
  have whole := frames_append payloads framable []
  rwa [List.append_nil, frames_nil, List.append_nil] at whole

def residue (bytes : List UInt8) : List UInt8 := bytes.drop (stream (frames bytes)).length

theorem walk_stops (bytes : List UInt8) :
    ∃ rest, bytes = stream (frames bytes) ++ rest ∧ ¬ Complete rest := by
  induction size : bytes.length using Nat.strong_induction_on generalizing bytes with
  | _ size ih =>
    by_cases complete : Complete bytes
    · obtain ⟨rest, split, stuck⟩ := ih _ (size ▸ beyond_length complete) (beyond bytes) rfl
      refine ⟨rest, ?_, stuck⟩
      rw [frames_complete complete, stream_cons, List.append_assoc, ← split, frame_payload complete]
      exact (List.take_append_drop _ _).symm
    · exact ⟨bytes, by simp [frames_incomplete complete], complete⟩

theorem stream_residue (bytes : List UInt8) : stream (frames bytes) ++ residue bytes = bytes := by
  obtain ⟨rest, split, -⟩ := walk_stops bytes
  have left : residue bytes = rest := by
    unfold residue
    nth_rewrite 2 [split]
    exact List.drop_left
  rw [left, ← split]

theorem residue_incomplete (bytes : List UInt8) : ¬ Complete (residue bytes) := by
  obtain ⟨rest, split, stuck⟩ := walk_stops bytes
  have left : residue bytes = rest := List.append_cancel_left ((stream_residue bytes).trans split)
  rwa [left]

theorem frames_extend (bytes more : List UInt8) :
    frames (bytes ++ more) = frames bytes ++ frames (residue bytes ++ more) := by
  have split : bytes ++ more = stream (frames bytes) ++ (residue bytes ++ more) := by
    rw [← List.append_assoc, stream_residue]
  rw [split, frames_append _ (frames_framable bytes)]

theorem residue_extend (bytes more : List UInt8) :
    residue (bytes ++ more) = residue (residue bytes ++ more) := by
  have whole := stream_residue (bytes ++ more)
  have later := stream_residue (residue bytes ++ more)
  have split : bytes ++ more = stream (frames bytes) ++ (residue bytes ++ more) := by
    rw [← List.append_assoc, stream_residue]
  rw [frames_extend, stream_append, List.append_assoc] at whole
  rw [← later] at split
  exact List.append_cancel_left (List.append_cancel_left (whole.trans split))

theorem frames_prefix_of {cut bytes : List UInt8} (before : cut <+: bytes) : frames cut <+: frames bytes := by
  obtain ⟨more, rfl⟩ := before
  rw [frames_extend]
  exact List.prefix_append _ _

theorem frames_cut (payloads : List (List UInt8)) (framable : ∀ p ∈ payloads, Framable p)
    (cut : List UInt8) (before : cut <+: stream payloads) :
    ∃ count, count ≤ payloads.length ∧ frames cut = payloads.take count := by
  have kept := frames_prefix_of before
  rw [frames_stream payloads framable] at kept
  exact ⟨(frames cut).length, kept.length_le, List.prefix_iff_eq_take.mp kept⟩

theorem residue_eq_nil_iff (bytes : List UInt8) :
    residue bytes = [] ↔ ∃ payloads, (∀ p ∈ payloads, Framable p) ∧ bytes = stream payloads := by
  constructor
  · intro empty
    have whole := stream_residue bytes
    rw [empty, List.append_nil] at whole
    exact ⟨frames bytes, frames_framable bytes, whole.symm⟩
  · rintro ⟨payloads, framable, rfl⟩
    rw [residue, frames_stream payloads framable, List.drop_length]

theorem stream_zeros (payloads : List (List UInt8)) (framable : ∀ p ∈ payloads, Framable p) {zeros : Nat}
    (long : 65539 ≤ zeros) (head tail : List UInt8) : stream payloads ≠ head ++ (List.replicate zeros 0 ++ tail) := by
  induction payloads generalizing head with
  | nil =>
    intro whole
    have sizes := congrArg List.length whole
    simp only [stream_nil, List.length_nil, List.length_append, List.length_replicate] at sizes
    omega
  | cons p rest ih =>
    intro whole
    obtain ⟨⟨-, bound⟩, later⟩ := List.forall_mem_cons.mp framable
    rw [stream_cons] at whole
    obtain ⟨head', rfl, onward⟩ | ⟨inside, split, onward⟩ := List.append_eq_append_iff.mp whole
    · exact ih later head' onward
    · have short : inside.length ≤ 65537 := by
        have sizes := congrArg List.length split
        rw [frame_length, List.length_append] at sizes
        omega
      have behind : stream rest = List.replicate (zeros - inside.length) 0 ++ tail := by
        have dropped := congrArg (List.drop inside.length) onward
        rw [List.drop_left, List.drop_append_of_le_length (by rw [List.length_replicate]; omega),
          List.drop_replicate] at dropped
        exact dropped.symm
      obtain ⟨more, count⟩ : ∃ n, zeros - inside.length = n + 2 := ⟨zeros - inside.length - 2, by omega⟩
      rw [count] at behind
      cases rest with
      | nil => cases behind
      | cons q rest =>
        obtain ⟨positive, bound⟩ := later q (by simp)
        have size := lengthPrefix_frame bound (stream rest)
        have nothing : lengthPrefix (List.replicate (more + 2) 0 ++ tail) = 0 := by
          simp [lengthPrefix, List.replicate_succ]
        rw [← stream_cons, behind, nothing] at size
        omega

end Framing
