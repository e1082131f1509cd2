import ItchLob.Itch.Parser

set_option autoImplicit false

namespace ItchLob.Itch

namespace Encode

abbrev Msg := List UInt8

-- The encoders push onto the end of the message they are given.

def be16 (v : Msg) (x : UInt16) : Msg := v ++ [(x >>> 8).toUInt8, x.toUInt8]

def be32 (v : Msg) (x : UInt32) : Msg := v ++ [24, 16, 8, 0].map fun s : UInt32 => (x >>> s).toUInt8

def be48 (v : Msg) (x : UInt64) : Msg :=
  v ++ [40, 32, 24, 16, 8, 0].map fun s : UInt64 => (x >>> s).toUInt8

def be64 (v : Msg) (x : UInt64) : Msg :=
  v ++ [56, 48, 40, 32, 24, 16, 8, 0].map fun s : UInt64 => (x >>> s).toUInt8

def stock8 (v : Msg) (s : List UInt8) : Msg :=
  v ++ (List.range 8).map fun i => if i < s.length then s.getD i 0 else ' '.toUInt8

def header (m : Msg) (type : UInt8) (locate : UInt16) (ts : UInt64) : Msg :=
  be48 (be16 (be16 (m ++ [type]) locate) 0) ts

def addOrder (locate : UInt16) (ts ref : UInt64) (side : Side) (shares : UInt32) (stock : List UInt8)
    (price : UInt32) : Msg :=
  let m := be64 (header [] 'A'.toUInt8 locate ts) ref
  let m := be32 (m ++ [side.char]) shares
  be32 (stock8 m stock) price

def executed (locate : UInt16) (ts ref : UInt64) (shares : UInt32) (matchNumber : UInt64) : Msg :=
  be64 (be32 (be64 (header [] 'E'.toUInt8 locate ts) ref) shares) matchNumber

def executedPrice (locate : UInt16) (ts ref : UInt64) (shares : UInt32) (matchNumber : UInt64)
    (printable : Bool) (price : UInt32) : Msg :=
  let m := be64 (be32 (be64 (header [] 'C'.toUInt8 locate ts) ref) shares) matchNumber
  be32 (m ++ [if printable then 'Y'.toUInt8 else 'N'.toUInt8]) price

def cancel (locate : UInt16) (ts ref : UInt64) (canceled : UInt32) : Msg :=
  be32 (be64 (header [] 'X'.toUInt8 locate ts) ref) canceled

def del (locate : UInt16) (ts ref : UInt64) : Msg := be64 (header [] 'D'.toUInt8 locate ts) ref

def replace (locate : UInt16) (ts orig next : UInt64) (shares price : UInt32) : Msg :=
  be32 (be32 (be64 (be64 (header [] 'U'.toUInt8 locate ts) orig) next) shares) price

def frame (out : List UInt8) (m : Msg) : List UInt8 := be16 out (UInt16.ofNat m.length) ++ m

def stream (msgs : List Msg) : List UInt8 := msgs.foldl frame []

section Fields

variable (rest : List UInt8)

theorem be16_read (x : UInt16) : Itch.be16 (be16 [] x ++ rest) = x := by
  have bound := x.toNat_lt
  have high := byte16_toNat x 8 (by decide)
  have low : x.toUInt8.toNat = x.toNat % 256 := UInt16.toNat_toUInt8 x
  apply UInt16.toNat_inj.mp
  rw [be16_toNat]
  change (x >>> 8).toUInt8.toNat * 256 + x.toUInt8.toNat = x.toNat
  rw [high, low]
  simp only [UInt16.reduceToNat]
  omega

theorem be32_read (x : UInt32) : Itch.be32 (be32 [] x ++ rest) = x := by
  have bound := x.toNat_lt
  apply UInt32.toNat_inj.mp
  rw [be32_toNat]
  change (x >>> 24).toUInt8.toNat * 2 ^ 24 + (x >>> 16).toUInt8.toNat * 2 ^ 16 +
    (x >>> 8).toUInt8.toNat * 2 ^ 8 + (x >>> 0).toUInt8.toNat = x.toNat
  rw [byte32_toNat x 24 (by decide), byte32_toNat x 16 (by decide), byte32_toNat x 8 (by decide),
    byte32_toNat x 0 (by decide)]
  refine (four_bytes x.toNat 0).trans ?_
  rw [Nat.pow_zero, Nat.div_one, Nat.mod_eq_of_lt bound]

theorem word64_toNat (x : UInt64) :
    (x >>> 24).toUInt8.toNat * 2 ^ 24 + (x >>> 16).toUInt8.toNat * 2 ^ 16 +
      (x >>> 8).toUInt8.toNat * 2 ^ 8 + (x >>> 0).toUInt8.toNat = x.toNat % 2 ^ 32 := by
  rw [byte64_toNat x 24 (by decide), byte64_toNat x 16 (by decide), byte64_toNat x 8 (by decide),
    byte64_toNat x 0 (by decide)]
  refine (four_bytes x.toNat 0).trans ?_
  rw [Nat.pow_zero, Nat.div_one]

theorem be48_read (x : UInt64) (clock : x.toNat < 2 ^ 48) : Itch.be48 (be48 [] x ++ rest) = x := by
  have low := word64_toNat x
  have high := byte_step x.toNat 32
  apply UInt64.toNat_inj.mp
  rw [be48_toNat, be16_toNat, be32_toNat]
  change ((x >>> 40).toUInt8.toNat * 256 + (x >>> 32).toUInt8.toNat) * 2 ^ 32 +
    ((x >>> 24).toUInt8.toNat * 2 ^ 24 + (x >>> 16).toUInt8.toNat * 2 ^ 16 +
      (x >>> 8).toUInt8.toNat * 2 ^ 8 + (x >>> 0).toUInt8.toNat) = x.toNat
  rw [low, byte64_toNat x 40 (by decide), byte64_toNat x 32 (by decide)]
  have top : x.toNat / 2 ^ 40 % 256 = x.toNat / 2 ^ 40 := Nat.mod_eq_of_lt (by omega)
  simp only [UInt64.reduceToNat, top]
  rw [high, Nat.div_add_mod']

theorem be64_read (x : UInt64) : Itch.be64 (be64 [] x ++ rest) = x := by
  have bound := x.toNat_lt
  have low := word64_toNat x
  have high := four_bytes x.toNat 32
  apply UInt64.toNat_inj.mp
  rw [be64_toNat, be32_toNat, be32_toNat]
  change ((x >>> 56).toUInt8.toNat * 2 ^ 24 + (x >>> 48).toUInt8.toNat * 2 ^ 16 +
      (x >>> 40).toUInt8.toNat * 2 ^ 8 + (x >>> 32).toUInt8.toNat) * 2 ^ 32 +
    ((x >>> 24).toUInt8.toNat * 2 ^ 24 + (x >>> 16).toUInt8.toNat * 2 ^ 16 +
      (x >>> 8).toUInt8.toNat * 2 ^ 8 + (x >>> 0).toUInt8.toNat) = x.toNat
  rw [low, byte64_toNat x 56 (by decide), byte64_toNat x 48 (by decide), byte64_toNat x 40 (by decide),
    byte64_toNat x 32 (by decide)]
  have top : x.toNat / 2 ^ 32 % 2 ^ 32 = x.toNat / 2 ^ 32 := Nat.mod_eq_of_lt (by omega)
  rw [top] at high
  simp only [UInt64.reduceToNat]
  rw [high, Nat.div_add_mod']

end Fields

def symbol (s : List UInt8) : List UInt8 := (s.take 8).rdropWhile (· = ' '.toUInt8)

-- char stock[9], NUL-terminated
def stockField (s : List UInt8) : List UInt8 :=
  symbol s ++ List.replicate (9 - (symbol s).length) 0

theorem blankTrailing_eq (chars : List UInt8) :
    blankTrailing chars =
      List.replicate (chars.length - (chars.dropWhile (· = ' '.toUInt8)).length) 0 ++
        chars.dropWhile (· = ' '.toUInt8) := by
  induction chars with
  | nil => rfl
  | cons c rest ih =>
    have shorter := (List.dropWhile_suffix (l := rest) (p := fun c => decide (c = ' '.toUInt8))).length_le
    by_cases blank : c = ' '.toUInt8
    · rw [blankTrailing, if_pos blank, ih, List.dropWhile_cons_of_pos (by simpa using blank),
        List.length_cons, Nat.succ_sub shorter, List.replicate_succ, List.cons_append]
    · rw [blankTrailing, if_neg blank, List.dropWhile_cons_of_neg (by simpa using blank)]
      simp

theorem stock8_eq (s : List UInt8) :
    stock8 [] s = s.take 8 ++ List.replicate (8 - s.length) ' '.toUInt8 := by
  apply List.ext_getElem
  · simp only [stock8, List.nil_append, List.length_map, List.length_range, List.length_append,
      List.length_take, List.length_replicate]
    omega
  · intro i inside _
    simp only [stock8, List.nil_append, List.length_map, List.length_range] at inside
    by_cases present : i < s.length
    · rw [List.getElem_append_left (by simp only [List.length_take]; omega)]
      simp [stock8, present]
    · rw [List.getElem_append_right (by simp only [List.length_take]; omega)]
      simp [stock8, present]

theorem symbol_padded (s : List UInt8) : (stock8 [] s).rdropWhile (· = ' '.toUInt8) = symbol s := by
  rw [stock8_eq, symbol, List.rdropWhile, List.rdropWhile, List.reverse_append, List.reverse_replicate]
  congr 1
  induction 8 - s.length with
  | zero => rfl
  | succ n ih => rw [List.replicate_succ, List.cons_append, List.dropWhile_cons_of_pos (by decide), ih]

theorem copyStock_stock8 (s rest : List UInt8) : copyStock (stock8 [] s ++ rest) = stockField s := by
  have width : (stock8 [] s).length = 8 := by simp [stock8]
  have kept : ((stock8 [] s).reverse.dropWhile (· = ' '.toUInt8)).reverse = symbol s := symbol_padded s
  have size : ((stock8 [] s).reverse.dropWhile (· = ' '.toUInt8)).length = (symbol s).length := by
    rw [← kept, List.length_reverse]
  have short : (symbol s).length ≤ 8 := by
    have backwards : (stock8 [] s).reverse.length = 8 := by rw [List.length_reverse, width]
    rw [← size, ← backwards]
    exact (List.dropWhile_suffix _).length_le
  have first : (stock8 [] s ++ rest).take 8 = stock8 [] s := by rw [← width, List.take_left]
  rw [copyStock, first, blankTrailing_eq, List.reverse_append, kept, size, List.length_reverse, width,
    List.reverse_replicate, stockField, Nat.succ_sub short, List.replicate_succ', List.append_assoc]

inductive Message where
  | addOrder (locate : UInt16) (ts ref : UInt64) (side : Side) (shares : UInt32) (stock : List UInt8)
      (price : UInt32)
  | executed (locate : UInt16) (ts ref : UInt64) (shares : UInt32) (matchNumber : UInt64)
  | executedPrice (locate : UInt16) (ts ref : UInt64) (shares : UInt32) (matchNumber : UInt64)
      (printable : Bool) (price : UInt32)
  | cancel (locate : UInt16) (ts ref : UInt64) (canceled : UInt32)
  | del (locate : UInt16) (ts ref : UInt64)
  | replace (locate : UInt16) (ts orig next : UInt64) (shares price : UInt32)

namespace Message

def encode : Message → Msg
  | .addOrder locate ts ref side shares stock price =>
    Encode.addOrder locate ts ref side shares stock price
  | .executed locate ts ref shares matchNumber => Encode.executed locate ts ref shares matchNumber
  | .executedPrice locate ts ref shares matchNumber printable price =>
    Encode.executedPrice locate ts ref shares matchNumber printable price
  | .cancel locate ts ref canceled => Encode.cancel locate ts ref canceled
  | .del locate ts ref => Encode.del locate ts ref
  | .replace locate ts orig next shares price => Encode.replace locate ts orig next shares price

def timestamp : Message → UInt64
  | .addOrder _ ts .. | .executed _ ts .. | .executedPrice _ ts .. | .cancel _ ts .. | .del _ ts ..
  | .replace _ ts .. => ts

def callback : Message → Event
  | .addOrder locate ts ref side shares stock price =>
    .add { hdr := ⟨locate, ts⟩, ref, side, shares, stock := stockField stock, price }
  | .executed locate ts ref shares matchNumber =>
    .execute { hdr := ⟨locate, ts⟩, ref, shares, matchNumber }
  | .executedPrice locate ts ref shares matchNumber printable price =>
    .executePrice { hdr := ⟨locate, ts⟩, ref, shares, matchNumber, printable, price }
  | .cancel locate ts ref canceled => .cancel { hdr := ⟨locate, ts⟩, ref, canceled }
  | .del locate ts ref => .delete { hdr := ⟨locate, ts⟩, ref }
  | .replace locate ts orig next shares price =>
    .replace { hdr := ⟨locate, ts⟩, origRef := orig, newRef := next, shares, price }

end Message

section Decode

variable {ts : UInt64} (clock : ts.toNat < 2 ^ 48) (type : UInt8) (locate : UInt16)
include clock

theorem header_read (rest : List UInt8) :
    Itch.header (header [] type locate ts ++ rest) = ⟨locate, ts⟩ := by
  have place : Itch.be16 ((header [] type locate ts ++ rest).drop 1) = locate :=
    be16_read ((be16 [] 0) ++ ((be48 [] ts) ++ rest)) locate
  have time : Itch.be48 ((header [] type locate ts ++ rest).drop 5) = ts := be48_read rest ts clock
  rw [Itch.header, place, time]

theorem event_addOrder (ref : UInt64) (side : Side) (shares : UInt32) (stock : List UInt8) (price : UInt32) :
    event (addOrder locate ts ref side shares stock price) =
      .add { hdr := ⟨locate, ts⟩, ref, side, shares, stock := stockField stock, price } := by
  have hdr := header_read clock 'A'.toUInt8 locate
    (be64 [] ref ++ ([side.char] ++ (be32 [] shares ++ (stock8 [] stock ++ be32 [] price))))
  have number := be64_read ([side.char] ++ (be32 [] shares ++ (stock8 [] stock ++ be32 [] price))) ref
  have size := be32_read (stock8 [] stock ++ be32 [] price) shares
  have name := copyStock_stock8 stock (be32 [] price)
  have worth := be32_read [] price
  apply congrArg Event.add
  exact (AddOrder.mk.injEq ..).mpr ⟨hdr, number, rfl, size, name, worth⟩

theorem event_executed (ref : UInt64) (shares : UInt32) (matchNumber : UInt64) :
    event (executed locate ts ref shares matchNumber) =
      .execute { hdr := ⟨locate, ts⟩, ref, shares, matchNumber } := by
  have hdr := header_read clock 'E'.toUInt8 locate (be64 [] ref ++ (be32 [] shares ++ be64 [] matchNumber))
  have number := be64_read (be32 [] shares ++ be64 [] matchNumber) ref
  have size := be32_read (be64 [] matchNumber) shares
  have trade := be64_read [] matchNumber
  apply congrArg Event.execute
  exact (OrderExecuted.mk.injEq ..).mpr ⟨hdr, number, size, trade⟩

theorem event_executedPrice (ref : UInt64) (shares : UInt32) (matchNumber : UInt64) (printable : Bool)
    (price : UInt32) :
    event (executedPrice locate ts ref shares matchNumber printable price) =
      .executePrice { hdr := ⟨locate, ts⟩, ref, shares, matchNumber, printable, price } := by
  have hdr := header_read clock 'C'.toUInt8 locate (be64 [] ref ++ (be32 [] shares ++ (be64 [] matchNumber ++
    ([if printable then 'Y'.toUInt8 else 'N'.toUInt8] ++ be32 [] price))))
  have number := be64_read (be32 [] shares ++ (be64 [] matchNumber ++
    ([if printable then 'Y'.toUInt8 else 'N'.toUInt8] ++ be32 [] price))) ref
  have size := be32_read (be64 [] matchNumber ++
    ([if printable then 'Y'.toUInt8 else 'N'.toUInt8] ++ be32 [] price)) shares
  have trade := be64_read ([if printable then 'Y'.toUInt8 else 'N'.toUInt8] ++ be32 [] price) matchNumber
  have flag : decide ((if printable then 'Y'.toUInt8 else 'N'.toUInt8) = 'Y'.toUInt8) = printable := by
    cases printable <;> decide
  have worth := be32_read [] price
  apply congrArg Event.executePrice
  exact (OrderExecutedPrice.mk.injEq ..).mpr ⟨hdr, number, size, trade, flag, worth⟩

theorem event_cancel (ref : UInt64) (canceled : UInt32) :
    event (cancel locate ts ref canceled) = .cancel { hdr := ⟨locate, ts⟩, ref, canceled } := by
  have hdr := header_read clock 'X'.toUInt8 locate (be64 [] ref ++ be32 [] canceled)
  have number := be64_read (be32 [] canceled) ref
  have size := be32_read [] canceled
  apply congrArg Event.cancel
  exact (OrderCancel.mk.injEq ..).mpr ⟨hdr, number, size⟩

theorem event_del (ref : UInt64) :
    event (del locate ts ref) = .delete { hdr := ⟨locate, ts⟩, ref } := by
  have hdr := header_read clock 'D'.toUInt8 locate (be64 [] ref)
  have number := be64_read [] ref
  apply congrArg Event.delete
  exact (OrderDelete.mk.injEq ..).mpr ⟨hdr, number⟩

theorem event_replace (orig next : UInt64) (shares price : UInt32) :
    event (replace locate ts orig next shares price) =
      .replace { hdr := ⟨locate, ts⟩, origRef := orig, newRef := next, shares, price } := by
  have hdr := header_read clock 'U'.toUInt8 locate
    (be64 [] orig ++ (be64 [] next ++ (be32 [] shares ++ be32 [] price)))
  have number := be64_read (be64 [] next ++ (be32 [] shares ++ be32 [] price)) orig
  have renewed := be64_read (be32 [] shares ++ be32 [] price) next
  have size := be32_read (be32 [] price) shares
  have worth := be32_read [] price
  apply congrArg Event.replace
  exact (OrderReplace.mk.injEq ..).mpr ⟨hdr, number, renewed, size, worth⟩

end Decode

namespace Message

theorem event_encode (m : Message) (clock : m.timestamp.toNat < 2 ^ 48) : event m.encode = m.callback := by
  cases m with
  | addOrder locate ts ref side shares stock price =>
    exact event_addOrder clock locate ref side shares stock price
  | executed locate ts ref shares matchNumber => exact event_executed clock locate ref shares matchNumber
  | executedPrice locate ts ref shares matchNumber printable price =>
    exact event_executedPrice clock locate ref shares matchNumber printable price
  | cancel locate ts ref canceled => exact event_cancel clock locate ref canceled
  | del locate ts ref => exact event_del clock locate ref
  | replace locate ts orig next shares price => exact event_replace clock locate orig next shares price

theorem encode_length (m : Message) : (m.encode.length : Int) = wireSize (m.encode.getD 0 0) := by
  cases m <;> rfl

theorem encode_framable (m : Message) : Framing.Framable m.encode := by
  have size := m.encode_length
  have table := wireSize_bounds (m.encode.getD 0 0)
  exact ⟨by omega, by omega⟩

end Message

theorem frame_eq (out : List UInt8) (m : Msg) : frame out m = out ++ Framing.frame m := by
  have high : (UInt16.ofNat m.length >>> 8).toUInt8 = UInt8.ofNat (m.length / 256) := by
    apply UInt8.toNat_inj.mp
    rw [byte16_toNat _ _ (by decide), UInt16.toNat_ofNat', UInt8.toNat_ofNat']
    simp only [UInt16.reduceToNat]
    omega
  have low : (UInt16.ofNat m.length).toUInt8 = UInt8.ofNat m.length := by
    apply UInt8.toNat_inj.mp
    rw [UInt16.toNat_toUInt8, UInt16.toNat_ofNat', UInt8.toNat_ofNat']
    omega
  rw [frame, be16, high, low, Framing.frame, List.append_assoc]
  rfl

theorem stream_eq (msgs : List Msg) : stream msgs = Framing.stream msgs := by
  have general (out : List UInt8) : msgs.foldl frame out = out ++ Framing.stream msgs := by
    induction msgs generalizing out with
    | nil => simp
    | cons m rest ih => rw [List.foldl_cons, ih, frame_eq, Framing.stream_cons, List.append_assoc]
  exact general []

/-- Every message of a framed stream reaches its callback, in order and with
every field as it was encoded. -/
theorem parseStream_encoded {σ : Type} (h : Handler σ) (messages : List Message)
    (clock : ∀ m ∈ messages, m.timestamp.toNat < 2 ^ 48) (s : σ) :
    parseStream h (stream (messages.map Message.encode)) s =
      (messages.foldl (fun s m => h m.callback s) s, messages.length) := by
  have split : Framing.frames (stream (messages.map Message.encode)) = messages.map Message.encode := by
    rw [stream_eq]
    apply Framing.frames_stream
    intro p inside
    obtain ⟨m, -, rfl⟩ := List.mem_map.mp inside
    exact m.encode_framable
  have decoded : events (stream (messages.map Message.encode)) = messages.map Message.callback := by
    rw [events, split, List.map_map]
    exact List.map_congr_left fun m inside => m.event_encode (clock m inside)
  rw [parseStream_events, decoded, List.foldl_map, List.length_map]

def listedOrder : Message :=
  .addOrder 7 34200000000000 42 Side.buy 100 ("AAPL".toUTF8.toList) 1500000

theorem parseStream_encoded_order :
    listedOrder.timestamp.toNat < 2 ^ 48 ∧
      parseStream (fun e calls => calls ++ [e]) (stream [listedOrder.encode, listedOrder.encode]) [] =
        ([listedOrder.callback, listedOrder.callback], 2) :=
  ⟨by decide, parseStream_encoded _ [listedOrder, listedOrder]
    (by intro m inside; rw [List.mem_pair] at inside; rcases inside with rfl | rfl <;> decide) []⟩

end Encode

end ItchLob.Itch
