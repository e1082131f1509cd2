import ItchLob.Shared.Reads
import ItchLob.Itch.FrameWalk

set_option autoImplicit false

namespace ItchLob.Itch

open Framing Reads

-- parse_stream over the whole buffer, with every pointer an index into it: each
-- read of a byte is an access of that index.

section At

variable (data : List UInt8)

def be16At (p : Nat) : Traced UInt16 := do
  let b0 ← element data 0 p
  let b1 ← element data 0 (p + 1)
  return (b0.toUInt16 <<< 8) ||| b1.toUInt16

def be32At (p : Nat) : Traced UInt32 := do
  let b0 ← element data 0 p
  let b1 ← element data 0 (p + 1)
  let b2 ← element data 0 (p + 2)
  let b3 ← element data 0 (p + 3)
  return (b0.toUInt32 <<< 24) ||| (b1.toUInt32 <<< 16) ||| (b2.toUInt32 <<< 8) ||| b3.toUInt32

def be48At (p : Nat) : Traced UInt64 := do
  let high ← be16At data p
  let low ← be32At data (p + 2)
  return (high.toUInt64 <<< 32) ||| low.toUInt64

def be64At (p : Nat) : Traced UInt64 := do
  let high ← be32At data p
  let low ← be32At data (p + 4)
  return (high.toUInt64 <<< 32) ||| low.toUInt64

def headerAt (p : Nat) : Traced Header := do
  let locate ← be16At data (p + 1)
  let timestamp ← be48At data (p + 5)
  return { locate, timestamp }

-- The blanks are trimmed in the copy.
def copyStockAt (src : Nat) : Traced (List UInt8) := do
  let dst ← elements data 0 src 8
  return (blankTrailing dst.reverse).reverse ++ [0]

def switchAt (p : Nat) (type : UInt8) : Traced Event :=
  if type = 'A'.toUInt8 ∨ type = 'F'.toUInt8 then do
    let hdr ← headerAt data p
    let ref ← be64At data (p + 11)
    let side ← element data 0 (p + 19)
    let shares ← be32At data (p + 20)
    let stock ← copyStockAt data (p + 24)
    let price ← be32At data (p + 32)
    return .add { hdr, ref, side := ⟨side⟩, shares, stock, price }
  else if type = 'E'.toUInt8 then do
    let hdr ← headerAt data p
    let ref ← be64At data (p + 11)
    let shares ← be32At data (p + 19)
    let matchNumber ← be64At data (p + 23)
    return .execute { hdr, ref, shares, matchNumber }
  else if type = 'C'.toUInt8 then do
    let hdr ← headerAt data p
    let ref ← be64At data (p + 11)
    let shares ← be32At data (p + 19)
    let matchNumber ← be64At data (p + 23)
    let printable ← element data 0 (p + 31)
    let price ← be32At data (p + 32)
    return .executePrice { hdr, ref, shares, matchNumber, printable := printable = 'Y'.toUInt8, price }
  else if type = 'X'.toUInt8 then do
    let hdr ← headerAt data p
    let ref ← be64At data (p + 11)
    let canceled ← be32At data (p + 19)
    return .cancel { hdr, ref, canceled }
  else if type = 'D'.toUInt8 then do
    let hdr ← headerAt data p
    let ref ← be64At data (p + 11)
    return .delete { hdr, ref }
  else do
    let hdr ← headerAt data p
    let origRef ← be64At data (p + 11)
    let newRef ← be64At data (p + 19)
    let shares ← be32At data (p + 27)
    let price ← be32At data (p + 31)
    return .replace { hdr, origRef, newRef, shares, price }

def decodeAt (p len : Nat) : Traced Event := do
  let type ← element data 0 p
  if wireSize type < 0 ∨ wireSize type ≠ len then return .other type len else switchAt data p type

section Loop

variable {σ : Type} (h : Handler σ)

def dispatchAt (p len : Nat) (s : σ) : Traced (Bool × σ) := do
  let e ← decodeAt data p len
  return (e.decoded, h e s)

def parseLoopAt : Nat → Nat → σ → Nat → Traced (σ × Nat)
  | 0, _, s, count => return (s, count)
  | fuel + 1, off, s, count =>
    if off + 2 ≤ data.length then do
      let mlen ← be16At data off
      if mlen.toNat = 0 ∨ off + 2 + mlen.toNat > data.length then return (s, count)
      else
        let turn ← decoding (off + 2, mlen.toNat) (dispatchAt data h (off + 2) mlen.toNat s)
        parseLoopAt fuel (off + (2 + mlen.toNat)) turn.2 (count + 1)
    else return (s, count)

def parseStreamAt (s : σ) : Traced (σ × Nat) := parseLoopAt data h data.length 0 s 0

end Loop

end At

section Inside

variable (data : List UInt8) (low high p : Nat)

@[simp] theorem inside_be16At : Inside low high (be16At data p) ↔ low ≤ p ∧ p + 2 ≤ high := by
  simp only [be16At, inside_bind, inside_element, inside_pure, and_true]
  omega

@[simp] theorem inside_be32At : Inside low high (be32At data p) ↔ low ≤ p ∧ p + 4 ≤ high := by
  simp only [be32At, inside_bind, inside_element, inside_pure, and_true]
  omega

@[simp] theorem inside_be48At : Inside low high (be48At data p) ↔ low ≤ p ∧ p + 6 ≤ high := by
  simp only [be48At, inside_bind, inside_be16At, inside_be32At, inside_pure, and_true]
  omega

@[simp] theorem inside_be64At : Inside low high (be64At data p) ↔ low ≤ p ∧ p + 8 ≤ high := by
  simp only [be64At, inside_bind, inside_be32At, inside_pure, and_true]
  omega

@[simp] theorem inside_headerAt : Inside low high (headerAt data p) ↔ low ≤ p + 1 ∧ p + 11 ≤ high := by
  simp only [headerAt, inside_bind, inside_be16At, inside_be48At, inside_pure, and_true]
  omega

@[simp] theorem inside_copyStockAt : Inside low high (copyStockAt data p) ↔ low ≤ p ∧ p + 8 ≤ high := by
  simp only [copyStockAt, inside_bind, inside_pure, and_true]
  exact inside_elements low high data 0 p 8 (by decide)

end Inside

theorem wireSize_known {type : UInt8} {len : Nat} (size : wireSize type = len) :
    (type = 'A'.toUInt8 ∧ len = 36) ∨ (type = 'F'.toUInt8 ∧ len = 40) ∨ (type = 'E'.toUInt8 ∧ len = 31) ∨
      (type = 'C'.toUInt8 ∧ len = 36) ∨ (type = 'X'.toUInt8 ∧ len = 23) ∨ (type = 'D'.toUInt8 ∧ len = 19) ∨
      (type = 'U'.toUInt8 ∧ len = 35) := by
  unfold wireSize at size
  split_ifs at size with added attributed executed priced canceled deleted replaced
  · exact .inl ⟨added, by omega⟩
  · exact .inr (.inl ⟨attributed, by omega⟩)
  · exact .inr (.inr (.inl ⟨executed, by omega⟩))
  · exact .inr (.inr (.inr (.inl ⟨priced, by omega⟩)))
  · exact .inr (.inr (.inr (.inr (.inl ⟨canceled, by omega⟩))))
  · exact .inr (.inr (.inr (.inr (.inr (.inl ⟨deleted, by omega⟩)))))
  · exact .inr (.inr (.inr (.inr (.inr (.inr ⟨replaced, by omega⟩)))))

theorem inside_switchAt (data : List UInt8) (p : Nat) {type : UInt8} {len : Nat} (size : wireSize type = len) :
    Inside p (p + len) (switchAt data p type) := by
  unfold switchAt
  rcases wireSize_known size with ⟨rfl, rfl⟩ | ⟨rfl, rfl⟩ | ⟨rfl, rfl⟩ | ⟨rfl, rfl⟩ | ⟨rfl, rfl⟩ | ⟨rfl, rfl⟩ |
    ⟨rfl, rfl⟩
  · rw [if_pos (by decide)]
    simp
  · rw [if_pos (by decide)]
    simp
  · rw [if_neg (by decide), if_pos rfl]
    simp
  · rw [if_neg (by decide), if_neg (by decide), if_pos rfl]
    simp
  · rw [if_neg (by decide), if_neg (by decide), if_neg (by decide), if_pos rfl]
    simp
  · rw [if_neg (by decide), if_neg (by decide), if_neg (by decide), if_neg (by decide), if_pos rfl]
    simp
  · rw [if_neg (by decide), if_neg (by decide), if_neg (by decide), if_neg (by decide), if_neg (by decide)]
    simp

theorem inside_decodeAt (data : List UInt8) (p len : Nat) (positive : 1 ≤ len) :
    Inside p (p + len) (decodeAt data p len) := by
  rw [decodeAt, inside_bind, inside_element]
  refine ⟨⟨Nat.le_refl _, by omega⟩, ?_⟩
  split
  · simp
  next right =>
    rw [not_or, not_not] at right
    exact inside_switchAt data p right.2

-- The window is the frame's payload, as parse_stream hands it to dispatch.
section Values

variable {data : List UInt8} {p len k : Nat}

theorem window_getD {i : Nat} (inside : k + i < len) :
    (((data.drop p).take len).drop k).getD i 0 = data.getD (p + k + i) 0 := by
  simp only [List.getD_eq_getElem?_getD, List.getElem?_drop, List.getElem?_take, if_pos inside, Nat.add_assoc]

theorem byte_window {i : Nat} (inside : i < len) : ((data.drop p).take len).getD i 0 = data.getD (p + i) 0 :=
  window_getD (k := 0) (by omega)

theorem value_be16At (inside : k + 2 ≤ len) :
    (be16At data (p + k)).value = be16 (((data.drop p).take len).drop k) := by
  rw [be16, window_getD (by omega), window_getD (by omega)]
  rfl

theorem value_be32At (inside : k + 4 ≤ len) :
    (be32At data (p + k)).value = be32 (((data.drop p).take len).drop k) := by
  rw [be32, window_getD (by omega), window_getD (by omega), window_getD (by omega), window_getD (by omega)]
  rfl

theorem value_be48At (inside : k + 6 ≤ len) :
    (be48At data (p + k)).value = be48 (((data.drop p).take len).drop k) := by
  rw [be48, List.drop_drop, ← value_be16At (by omega), ← value_be32At (by omega), ← Nat.add_assoc]
  rfl

theorem value_be64At (inside : k + 8 ≤ len) :
    (be64At data (p + k)).value = be64 (((data.drop p).take len).drop k) := by
  rw [be64, List.drop_drop, ← value_be32At (by omega), ← value_be32At (by omega), ← Nat.add_assoc]
  rfl

theorem value_headerAt (inside : 11 ≤ len) : (headerAt data p).value = header ((data.drop p).take len) := by
  rw [header, ← value_be16At (by omega), ← value_be48At (by omega)]
  rfl

theorem value_copyStockAt (inside : k + 8 ≤ len) (within : p + len ≤ data.length) :
    (copyStockAt data (p + k)).value = copyStock (((data.drop p).take len).drop k) := by
  have copied := value_elements data 0 (p + k) 8 (by omega)
  rw [copyStock, List.drop_take, List.take_take, Nat.min_eq_left (by omega), List.drop_drop, ← copied]
  rfl

theorem value_switchAt {type : UInt8} (size : wireSize type = len)
    (here : ((data.drop p).take len).getD 0 0 = type) (within : p + len ≤ data.length) :
    (switchAt data p type).value = decode ((data.drop p).take len) len := by
  have right : ¬(wireSize type < 0 ∨ wireSize type ≠ len) := by omega
  simp only [decode, here]
  rw [if_neg right]
  unfold switchAt
  rcases wireSize_known size with ⟨rfl, rfl⟩ | ⟨rfl, rfl⟩ | ⟨rfl, rfl⟩ | ⟨rfl, rfl⟩ | ⟨rfl, rfl⟩ | ⟨rfl, rfl⟩ |
    ⟨rfl, rfl⟩
  · rw [if_pos (by decide), if_pos (by decide)]
    simp (disch := omega) only [← value_headerAt, ← value_be64At, ← value_be32At, ← value_copyStockAt, byte_window]
    rfl
  · rw [if_pos (by decide), if_pos (by decide)]
    simp (disch := omega) only [← value_headerAt, ← value_be64At, ← value_be32At, ← value_copyStockAt, byte_window]
    rfl
  · rw [if_neg (by decide), if_pos rfl, if_neg (by decide), if_pos rfl]
    simp (disch := omega) only [← value_headerAt, ← value_be64At, ← value_be32At]
    rfl
  · rw [if_neg (by decide), if_neg (by decide), if_pos rfl, if_neg (by decide), if_neg (by decide), if_pos rfl]
    simp (disch := omega) only [← value_headerAt, ← value_be64At, ← value_be32At, byte_window]
    rfl
  · rw [if_neg (by decide), if_neg (by decide), if_neg (by decide), if_pos rfl, if_neg (by decide),
      if_neg (by decide), if_neg (by decide), if_pos rfl]
    simp (disch := omega) only [← value_headerAt, ← value_be64At, ← value_be32At]
    rfl
  · rw [if_neg (by decide), if_neg (by decide), if_neg (by decide), if_neg (by decide), if_pos rfl,
      if_neg (by decide), if_neg (by decide), if_neg (by decide), if_neg (by decide), if_pos rfl]
    simp (disch := omega) only [← value_headerAt, ← value_be64At]
    rfl
  · rw [if_neg (by decide), if_neg (by decide), if_neg (by decide), if_neg (by decide), if_neg (by decide),
      if_neg (by decide), if_neg (by decide), if_neg (by decide), if_neg (by decide), if_neg (by decide)]
    simp (disch := omega) only [← value_headerAt, ← value_be64At, ← value_be32At]
    rfl

theorem value_decodeAt (positive : 1 ≤ len) (within : p + len ≤ data.length) :
    (decodeAt data p len).value = decode ((data.drop p).take len) len := by
  have here : ((data.drop p).take len).getD 0 0 = data.getD p 0 := byte_window positive
  rw [decodeAt, value_bind, value_element]
  by_cases wrong : wireSize (data.getD p 0) < 0 ∨ wireSize (data.getD p 0) ≠ len
  · simp only [decode, here]
    rw [if_pos wrong, if_pos wrong, value_pure]
  · rw [if_neg wrong]
    rw [not_or, not_not] at wrong
    exact value_switchAt wrong.2 here within

theorem value_lengthAt (data : List UInt8) (off : Nat) : (be16At data off).value = be16 (data.drop off) := by
  simp [be16At, be16]

theorem value_parseLoopAt {σ : Type} (data : List UInt8) (h : Handler σ) (fuel off : Nat) (s : σ) (count : Nat) :
    (parseLoopAt data h fuel off s count).value = parseLoop h fuel (data.drop off) s count := by
  induction fuel generalizing off s count with
  | zero => rfl
  | succ fuel ih =>
    simp only [parseLoopAt, parseLoop, List.length_drop]
    by_cases two : off + 2 ≤ data.length
    · rw [if_pos two, if_pos (by omega), value_bind, value_lengthAt]
      by_cases stops : (be16 (data.drop off)).toNat = 0 ∨ off + 2 + (be16 (data.drop off)).toNat > data.length
      · rw [if_pos stops, if_pos (by omega), value_pure]
      · rw [if_neg stops, if_neg (by omega), value_bind, ih, value_decoding, List.drop_drop, List.drop_drop]
        congr 1
        rw [dispatchAt, value_bind, value_pure, value_decodeAt (by omega) (by omega), dispatch]
    · rw [if_neg two, if_neg (by omega), value_pure]

end Values

def Payload (data : List UInt8) (k : Nat) (part : Nat × Nat) : Prop :=
  ∃ inside : k < (frames data).length, part = (payloadStart data k, ((frames data).get ⟨k, inside⟩).length)

/-- In the buffer; and in the payload of the frame that is being decoded. -/
def Safe (data : List UInt8) (access : Access) : Prop :=
  access.index < data.length ∧ ∀ part, access.part = some part →
    (∃ k, Payload data k part) ∧ part.1 ≤ access.index ∧ access.index < part.1 + part.2

section Walk

variable {data : List UInt8} {k off : Nat} (before : off = (stream ((frames data).take k)).length)
  (ahead : frames (data.drop off) = (frames data).drop k)
include before ahead

theorem walk_at (complete : Complete (data.drop off)) :
    Payload data k (off + 2, lengthPrefix (data.drop off)) ∧
      off + (2 + lengthPrefix (data.drop off)) = (stream ((frames data).take (k + 1))).length ∧
      frames (data.drop (off + (2 + lengthPrefix (data.drop off)))) = (frames data).drop (k + 1) := by
  rw [frames_complete complete, beyond, List.drop_drop] at ahead
  have inside : k < (frames data).length := by
    by_contra outside
    rw [List.drop_eq_nil_of_le (Nat.le_of_not_lt outside)] at ahead
    cases ahead
  rw [List.drop_eq_getElem_cons inside] at ahead
  obtain ⟨head, rest⟩ := List.cons.inj ahead
  refine ⟨⟨inside, ?_⟩, ?_, rest⟩
  · rw [payloadStart, ← before, List.get_eq_getElem, ← head, payload_length complete]
  · rw [List.take_succ_eq_append_getElem inside, stream_append, List.length_append, ← before, ← head, stream_cons,
      stream_nil, List.append_nil, frame_length, payload_length complete]

theorem safe_parseLoopAt {σ : Type} (h : Handler σ) (fuel : Nat) (s : σ) (count : Nat) :
    ∀ access ∈ (parseLoopAt data h fuel off s count).accesses, Safe data access := by
  induction fuel generalizing k s count off with
  | zero => exact fun access absent => absurd absent List.not_mem_nil
  | succ fuel ih =>
    rw [parseLoopAt]
    split
    next two =>
      have prefixed : ∀ access ∈ (be16At data off).accesses, Safe data access := by
        intro access read
        simp only [be16At, element, accesses_bind, accesses_pure, List.mem_append, List.mem_singleton,
          List.not_mem_nil, or_false] at read
        rcases read with rfl | rfl
        · exact ⟨by simp only; omega, fun part same => by cases same⟩
        · exact ⟨by simp only; omega, fun part same => by cases same⟩
      intro access read
      rw [accesses_bind, List.mem_append] at read
      rcases read with first | read
      · exact prefixed access first
      · split at read
        · exact absurd read List.not_mem_nil
        next goes =>
          rw [value_lengthAt, be16_lengthPrefix] at goes read
          have complete : Complete (data.drop off) :=
            ⟨by rw [List.length_drop]; omega, by omega, by rw [List.length_drop]; omega⟩
          obtain ⟨here, next, later⟩ := walk_at before ahead complete
          rw [accesses_bind, List.mem_append] at read
          rcases read with decoded | read
          · simp only [decoding, dispatchAt, accesses_bind, accesses_pure, List.append_nil, List.mem_map] at decoded
            obtain ⟨read, inner, rfl⟩ := decoded
            have within := inside_decodeAt data (off + 2) (lengthPrefix (data.drop off)) (by omega) read inner
            refine ⟨Nat.lt_of_lt_of_le within.2 (by omega), fun part same => ?_⟩
            cases same
            exact ⟨⟨k, here⟩, within⟩
          · exact ih next later _ _ access read
    · exact fun access absent => absurd absent List.not_mem_nil

end Walk

/-- The parser reads nothing outside its input. Read by read the walk is
parse_stream; each read is inside the buffer, and one made while a frame is decoded
is inside that frame's payload; and it ends after at most len/3 frames. -/
theorem parseStream_reads {σ : Type} (data : List UInt8) (h : Handler σ) (s : σ) :
    (parseStreamAt data h s).value = parseStream h data s ∧
      (∀ access ∈ (parseStreamAt data h s).accesses, access.index < data.length ∧
        ∀ part, access.part = some part →
          (∃ k, Payload data k part) ∧ part.1 ≤ access.index ∧ access.index < part.1 + part.2) ∧
      (parseStreamAt data h s).value.2 ≤ data.length / 3 := by
  have same : (parseStreamAt data h s).value = parseStream h data s := value_parseLoopAt data h data.length 0 s 0
  refine ⟨same, safe_parseLoopAt (k := 0) rfl rfl h data.length s 0, ?_⟩
  have few := frames_length data
  rw [same, parseStream_walk, walk_frames]
  omega

end ItchLob.Itch
