import ItchLob.Shared.Framing
import ItchLob.Itch.Messages

set_option autoImplicit false

namespace ItchLob.Itch

def header (p : List UInt8) : Header :=
  { locate := be16 (p.drop 1), timestamp := be48 (p.drop 5) }

def blankTrailing : List UInt8 → List UInt8
  | [] => []
  | c :: rest => if c = ' '.toUInt8 then 0 :: blankTrailing rest else c :: rest

def copyStock (src : List UInt8) : List UInt8 :=
  (blankTrailing (src.take 8).reverse).reverse ++ [0]

inductive Event where
  | add (m : AddOrder)
  | execute (m : OrderExecuted)
  | executePrice (m : OrderExecutedPrice)
  | cancel (m : OrderCancel)
  | delete (m : OrderDelete)
  | replace (m : OrderReplace)
  | other (type : UInt8) (len : Nat)
  deriving DecidableEq, Repr

abbrev Handler (σ : Type) := Event → σ → σ

def decode (p : List UInt8) (len : Nat) : Event :=
  let type := p.getD 0 0
  let expect := wireSize type
  if expect < 0 ∨ expect ≠ len then .other type len
  else if type = 'A'.toUInt8 ∨ type = 'F'.toUInt8 then
    .add
      { hdr := header p
        ref := be64 (p.drop 11)
        side := ⟨p.getD 19 0⟩
        shares := be32 (p.drop 20)
        stock := copyStock (p.drop 24)
        price := be32 (p.drop 32) }
  else if type = 'E'.toUInt8 then
    .execute
      { hdr := header p
        ref := be64 (p.drop 11)
        shares := be32 (p.drop 19)
        matchNumber := be64 (p.drop 23) }
  else if type = 'C'.toUInt8 then
    .executePrice
      { hdr := header p
        ref := be64 (p.drop 11)
        shares := be32 (p.drop 19)
        matchNumber := be64 (p.drop 23)
        printable := p.getD 31 0 = 'Y'.toUInt8
        price := be32 (p.drop 32) }
  else if type = 'X'.toUInt8 then
    .cancel { hdr := header p, ref := be64 (p.drop 11), canceled := be32 (p.drop 19) }
  else if type = 'D'.toUInt8 then
    .delete { hdr := header p, ref := be64 (p.drop 11) }
  else
    .replace
      { hdr := header p
        origRef := be64 (p.drop 11)
        newRef := be64 (p.drop 19)
        shares := be32 (p.drop 27)
        price := be32 (p.drop 31) }

def Event.decoded : Event → Bool
  | .other _ _ => false
  | _ => true

def dispatch {σ : Type} (h : Handler σ) (p : List UInt8) (len : Nat) (s : σ) : Bool × σ :=
  ((decode p len).decoded, h (decode p len) s)

-- `rest` is the buffer from `off` on; each turn consumes at least three bytes,
-- so the buffer's length is enough fuel.
def parseLoop {σ : Type} (h : Handler σ) : Nat → List UInt8 → σ → Nat → σ × Nat
  | 0, _, s, count => (s, count)
  | fuel + 1, rest, s, count =>
    if 2 ≤ rest.length then
      let mlen := (be16 rest).toNat
      if mlen = 0 ∨ 2 + mlen > rest.length then (s, count)
      else
        parseLoop h fuel (rest.drop (2 + mlen)) (dispatch h ((rest.drop 2).take mlen) mlen s).2
          (count + 1)
    else (s, count)

def parseStream {σ : Type} (h : Handler σ) (data : List UInt8) (s : σ) : σ × Nat :=
  parseLoop h data.length data s 0

def event (p : List UInt8) : Event := decode p p.length

def events (data : List UInt8) : List Event := (Framing.frames data).map event

theorem be16_lengthPrefix (rest : List UInt8) : (be16 rest).toNat = Framing.lengthPrefix rest :=
  be16_toNat rest

theorem walk_turn {α : Type} (rest : List UInt8) (go stop : α) :
    (if 2 ≤ rest.length then
      if (be16 rest).toNat = 0 ∨ 2 + (be16 rest).toNat > rest.length then stop else go
    else stop) = if Framing.Complete rest then go else stop := by
  rw [be16_lengthPrefix]
  by_cases complete : Framing.Complete rest
  · have goes : ¬ (Framing.lengthPrefix rest = 0 ∨ 2 + Framing.lengthPrefix rest > rest.length) :=
      not_or.mpr ⟨complete.2.1, Nat.not_lt.mpr complete.2.2⟩
    rw [if_pos complete.1, if_neg goes, if_pos complete]
  · rw [if_neg complete]
    by_cases two : 2 ≤ rest.length
    · have stops : Framing.lengthPrefix rest = 0 ∨ 2 + Framing.lengthPrefix rest > rest.length := by
        by_contra go
        exact complete ⟨two, by omega, by omega⟩
      rw [if_pos two, if_pos stops]
    · rw [if_neg two]

-- parse_stream with the call of dispatch left open, to see what it is called with.
def walkLoop {σ : Type} (visit : List UInt8 → Nat → σ → σ) : Nat → List UInt8 → σ → Nat → σ × Nat
  | 0, _, s, count => (s, count)
  | fuel + 1, rest, s, count =>
    if 2 ≤ rest.length then
      let mlen := (be16 rest).toNat
      if mlen = 0 ∨ 2 + mlen > rest.length then (s, count)
      else walkLoop visit fuel (rest.drop (2 + mlen)) (visit ((rest.drop 2).take mlen) mlen s) (count + 1)
    else (s, count)

def walk {σ : Type} (visit : List UInt8 → Nat → σ → σ) (data : List UInt8) (s : σ) : σ × Nat :=
  walkLoop visit data.length data s 0

theorem parseLoop_walk {σ : Type} (h : Handler σ) (fuel : Nat) (rest : List UInt8) (s : σ) (count : Nat) :
    parseLoop h fuel rest s count = walkLoop (fun p len s => (dispatch h p len s).2) fuel rest s count := by
  induction fuel generalizing rest s count with
  | zero => rfl
  | succ fuel ih => simp only [parseLoop, walkLoop, ih]

theorem walkLoop_frames {σ : Type} (visit : List UInt8 → Nat → σ → σ) (fuel : Nat) (rest : List UInt8)
    (s : σ) (count : Nat) :
    walkLoop visit fuel rest s count =
      ((Framing.splitFrames fuel rest).foldl (fun s p => visit p p.length s) s,
        count + (Framing.splitFrames fuel rest).length) := by
  induction fuel generalizing rest s count with
  | zero => rfl
  | succ fuel ih =>
    simp only [walkLoop, walk_turn, Framing.splitFrames]
    split
    next complete =>
      rw [ih, List.foldl_cons, List.length_cons, Framing.payload_length complete]
      simp only [be16_lengthPrefix, Framing.payload, Framing.beyond, Nat.add_assoc, Nat.add_comm 1]
    next => rfl

theorem walk_frames {σ : Type} (visit : List UInt8 → Nat → σ → σ) (data : List UInt8) (s : σ) :
    walk visit data s =
      ((Framing.frames data).foldl (fun s p => visit p p.length s) s, (Framing.frames data).length) := by
  rw [walk, walkLoop_frames, Nat.zero_add, Framing.frames]

theorem parseStream_walk {σ : Type} (h : Handler σ) (data : List UInt8) (s : σ) :
    parseStream h data s = walk (fun p len s => (dispatch h p len s).2) data s := parseLoop_walk ..

theorem parseStream_events {σ : Type} (h : Handler σ) (data : List UInt8) (s : σ) :
    parseStream h data s = ((events data).foldl (fun s e => h e s) s, (events data).length) := by
  rw [parseStream_walk, walk_frames, events, List.foldl_map, List.length_map]
  rfl

end ItchLob.Itch
