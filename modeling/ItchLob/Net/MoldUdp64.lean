import ItchLob.Itch.Messages

set_option autoImplicit false

namespace ItchLob.Net

namespace MoldUdp64

open Itch

def kSessionLen : Nat := 10
def kHeaderLen : Nat := kSessionLen + 8 + 2

def kHeartbeat : UInt16 := 0
def kEndOfSession : UInt16 := 0xFFFF

structure Header where
  session : List UInt8 := []
  seq : UInt64 := 0
  count : UInt16 := 0
  deriving DecidableEq, Repr

-- std::array<char, 10>
def SessionId (session : List UInt8) : Prop := session.length = kSessionLen

def putBe64 (v : UInt64) : List UInt8 :=
  [56, 48, 40, 32, 24, 16, 8, 0].map fun s : UInt64 => (v >>> s).toUInt8

def putBe16 (v : UInt16) : List UInt8 := [(v >>> 8).toUInt8, v.toUInt8]

def getBe64 (p : List UInt8) : UInt64 := (p.take 8).foldl (fun v b => (v <<< 8) ||| b.toUInt64) 0

def getBe16 (p : List UInt8) : UInt16 := be16 p

def sameSession (a b : List UInt8) : Bool := a = b

def encode (h : Header) : List UInt8 := h.session ++ putBe64 h.seq ++ putBe16 h.count

-- Only called on at least kHeaderLen readable bytes.
def decode (p : List UInt8) : Header :=
  { session := p.take kSessionLen
    seq := getBe64 (p.drop kSessionLen)
    count := getBe16 (p.drop (kSessionLen + 8)) }

def body (p : List UInt8) : List UInt8 := p.drop kHeaderLen

theorem shift_or_toNat (v : UInt64) (b : UInt8) (small : v.toNat < 2 ^ 56) :
    ((v <<< 8) ||| b.toUInt64).toNat = v.toNat * 256 + b.toNat := by
  have low := b.toNat_lt
  have shifted : v.toNat <<< 8 % 2 ^ 64 = v.toNat <<< 8 := by
    rw [Nat.shiftLeft_eq]
    omega
  simp only [UInt64.toNat_or, UInt64.toNat_shiftLeft, UInt8.toNat_toUInt64]
  change v.toNat <<< 8 % 2 ^ 64 ||| b.toNat = _
  rw [shifted, ← Nat.shiftLeft_add_eq_or_of_lt low, Nat.shiftLeft_eq]

theorem foldl_toNat (bytes : List UInt8) (v : UInt64) (fits : (v.toNat + 1) * 256 ^ bytes.length ≤ 2 ^ 64) :
    (bytes.foldl (fun (v : UInt64) b => (v <<< 8) ||| b.toUInt64) v).toNat =
      bytes.foldl (fun v b => v * 256 + b.toNat) v.toNat := by
  induction bytes generalizing v with
  | nil => rfl
  | cons b rest ih =>
    have low := b.toNat_lt
    have scale : 0 < 256 ^ rest.length := Nat.pow_pos (by omega)
    rw [List.length_cons, Nat.pow_succ, Nat.mul_comm (256 ^ rest.length), ← Nat.mul_assoc] at fits
    have small : v.toNat < 2 ^ 56 := by
      have := Nat.le_mul_of_pos_right ((v.toNat + 1) * 256) scale
      omega
    have step := shift_or_toNat v b small
    simp only [List.foldl_cons]
    rw [ih, step]
    refine Nat.le_trans (Nat.mul_le_mul_right _ ?_) fits
    rw [step]
    omega

theorem getBe64_putBe64 (v : UInt64) (rest : List UInt8) : getBe64 (putBe64 v ++ rest) = v := by
  have width : (putBe64 v).length = 8 := rfl
  have bound := v.toNat_lt
  apply UInt64.toNat_inj.mp
  rw [getBe64, ← width, List.take_left, foldl_toNat _ _ (by rw [width]; decide)]
  simp only [putBe64, List.map_cons, List.map_nil, List.foldl_cons, List.foldl_nil]
  rw [byte64_toNat _ _ (by decide), byte64_toNat _ _ (by decide),
    byte64_toNat _ _ (by decide), byte64_toNat _ _ (by decide),
    byte64_toNat _ _ (by decide), byte64_toNat _ _ (by decide),
    byte64_toNat _ _ (by decide), byte64_toNat _ _ (by decide)]
  have top : v.toNat / 2 ^ 56 % 256 = v.toNat / 2 ^ 56 := Nat.mod_eq_of_lt (by omega)
  simp only [UInt64.reduceToNat, UInt64.toNat_zero, top]
  rw [Nat.zero_mul, Nat.zero_add, byte_step _ 48, byte_step _ 40, byte_step _ 32, byte_step _ 24,
    byte_step _ 16, byte_step _ 8, byte_step _ 0, Nat.pow_zero, Nat.div_one]

theorem getBe16_putBe16 (v : UInt16) (rest : List UInt8) : getBe16 (putBe16 v ++ rest) = v := by
  have bound := v.toNat_lt
  apply UInt16.toNat_inj.mp
  rw [getBe16, be16_toNat]
  have high : (v >>> 8).toUInt8.toNat = v.toNat / 256 % 256 := byte16_toNat v 8 (by decide)
  have low : v.toUInt8.toNat = v.toNat % 256 := UInt16.toNat_toUInt8 v
  simp only [putBe16, List.cons_append, List.nil_append, List.getD_cons_zero, List.getD_cons_succ, high, low]
  omega

theorem encode_length {h : Header} (id : SessionId h.session) : (encode h).length = kHeaderLen := by
  simp only [encode, List.length_append, show h.session.length = kSessionLen from id]
  rfl

theorem decode_encode {h : Header} (id : SessionId h.session) (payload : List UInt8) :
    decode (encode h ++ payload) = h := by
  have width : h.session.length = kSessionLen := id
  have bytes : (putBe64 h.seq).length = 8 := rfl
  have split : encode h ++ payload = h.session ++ (putBe64 h.seq ++ (putBe16 h.count ++ payload)) := by
    simp [encode]
  have session : (encode h ++ payload).take kSessionLen = h.session := by
    rw [split, ← width, List.take_left]
  have seq : getBe64 ((encode h ++ payload).drop kSessionLen) = h.seq := by
    rw [split, ← width, List.drop_left, getBe64_putBe64]
  have count : getBe16 ((encode h ++ payload).drop (kSessionLen + 8)) = h.count := by
    rw [split, ← List.drop_drop, ← width, List.drop_left, ← bytes, List.drop_left, getBe16_putBe16]
  rw [decode, session, seq, count]

theorem body_encode {h : Header} (id : SessionId h.session) (payload : List UInt8) :
    body (encode h ++ payload) = payload := by
  rw [body, ← encode_length id, List.drop_left]

end MoldUdp64

end ItchLob.Net
