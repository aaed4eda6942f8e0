import Mathlib.Algebra.Ring.Nat
import Mathlib.Tactic.Common

namespace LittleEndian

/-- The low `width` bytes of a number, least significant first. -/
def encode : Nat → Nat → List UInt8
  | 0, _ => []
  | width + 1, n => UInt8.ofNat n :: encode width (n / 256)

def decode : List UInt8 → Nat
  | [] => 0
  | byte :: rest => byte.toNat + 256 * decode rest

@[simp] theorem encode_length (width n : Nat) : (encode width n).length = width := by
  induction width generalizing n with
  | zero => rfl
  | succ width ih => rw [encode, List.length_cons, ih]

theorem decode_encode {width n : Nat} (fits : n < 256 ^ width) : decode (encode width n) = n := by
  induction width generalizing n with
  | zero =>
    rw [Nat.pow_zero, Nat.lt_one_iff] at fits
    rw [fits]
    rfl
  | succ width ih =>
    have high : n / 256 < 256 ^ width := by
      rw [Nat.pow_succ] at fits
      omega
    rw [encode, decode, ih high, UInt8.toNat_ofNat']
    omega

theorem encode_append {width n : Nat} (fits : n < 256 ^ width) (more m : Nat) :
    encode (width + more) (n + 256 ^ width * m) = encode width n ++ encode more m := by
  induction width generalizing n with
  | zero =>
    rw [Nat.pow_zero, Nat.lt_one_iff] at fits
    rw [fits, Nat.zero_add, Nat.zero_add, Nat.pow_zero, Nat.one_mul]
    rfl
  | succ width ih =>
    have high : n / 256 < 256 ^ width := by
      rw [Nat.pow_succ] at fits
      omega
    have whole : (n + 256 ^ (width + 1) * m) / 256 = n / 256 + 256 ^ width * m := by
      rw [Nat.pow_succ, Nat.mul_comm (256 ^ width) 256, Nat.mul_assoc, Nat.add_mul_div_left _ _ (by decide)]
    have low : UInt8.ofNat (n + 256 ^ (width + 1) * m) = UInt8.ofNat n := by
      apply UInt8.toNat_inj.mp
      rw [UInt8.toNat_ofNat', UInt8.toNat_ofNat', Nat.pow_succ, Nat.mul_comm (256 ^ width) 256, Nat.mul_assoc]
      omega
    rw [Nat.add_right_comm, encode, encode, whole, low, ih high, List.cons_append]

theorem decode_lt (l : List UInt8) : decode l < 256 ^ l.length := by
  induction l with
  | nil => exact Nat.one_pos
  | cons byte rest ih =>
    have low := byte.toNat_lt
    rw [decode, List.length_cons, Nat.pow_succ]
    omega

theorem encode_decode (l : List UInt8) : encode l.length (decode l) = l := by
  induction l with
  | nil => rfl
  | cons byte rest ih =>
    have low := byte.toNat_lt
    have high : (byte.toNat + 256 * decode rest) / 256 = decode rest := by omega
    have first : UInt8.ofNat (byte.toNat + 256 * decode rest) = byte := by
      apply UInt8.toNat_inj.mp
      rw [UInt8.toNat_ofNat']
      omega
    rw [List.length_cons, decode, encode, high, first, ih]

def word (width : Nat) (data : List UInt8) (i : Nat) : Nat := decode ((data.drop (width * i)).take width)

theorem flatMap_word {width n : Nat} {data : List UInt8} (fits : width * n ≤ data.length) :
    ((List.range n).flatMap fun i => encode width (word width data i)) = data.take (width * n) := by
  induction n with
  | zero => rfl
  | succ n ih =>
    rw [Nat.mul_succ] at fits
    have whole : ((data.drop (width * n)).take width).length = width := by
      rw [List.length_take, List.length_drop]
      omega
    have same := encode_decode ((data.drop (width * n)).take width)
    rw [whole] at same
    rw [List.range_succ, List.flatMap_append, ih (by omega), List.flatMap_singleton, word, same, Nat.mul_succ, List.take_add]

/-- A record of fields, each of a width and with a value. -/
def pack (fields : List (Nat × Nat)) : List UInt8 := fields.flatMap fun field => encode field.1 field.2

def unpack : List Nat → List UInt8 → List Nat
  | [], _ => []
  | width :: rest, data => decode (data.take width) :: unpack rest (data.drop width)

theorem pack_cons (width n : Nat) (fields : List (Nat × Nat)) : pack ((width, n) :: fields) = encode width n ++ pack fields := rfl

theorem pack_length (fields : List (Nat × Nat)) : (pack fields).length = (fields.map Prod.fst).sum := by
  induction fields with
  | nil => rfl
  | cons field rest ih => rw [pack_cons, List.length_append, encode_length, ih, List.map_cons, List.sum_cons]

theorem unpack_pack {fields : List (Nat × Nat)} (fits : ∀ field ∈ fields, field.2 < 256 ^ field.1) (rest : List UInt8) :
    unpack (fields.map Prod.fst) (pack fields ++ rest) = fields.map Prod.snd := by
  induction fields with
  | nil => rfl
  | cons field fields ih =>
    rw [List.map_cons, List.map_cons, unpack, pack_cons, List.append_assoc, List.take_left' (encode_length ..),
      List.drop_left' (encode_length ..), decode_encode (fits field List.mem_cons_self),
      ih fun other member => fits other (List.mem_cons_of_mem _ member)]

/-- The two's complement reading of 64 bits. -/
def signed (n : Nat) : Int := if n < 0x8000000000000000 then n else n - 0x10000000000000000

theorem signed_toUInt64 (n : Int64) : signed n.toUInt64.toNat = n.toInt := by
  rw [signed, Int64.toInt, BitVec.toInt_eq_toNat_cond]
  have same : n.toUInt64.toNat = n.toBitVec.toNat := rfl
  rw [same]
  split_ifs <;> omega

section Records

variable {α : Type} {f : α → List UInt8} {size : Nat}

theorem drop_flatMap (constant : ∀ a, (f a).length = size) (l : List α) (i : Nat) :
    (l.flatMap f).drop (size * i) = (l.drop i).flatMap f := by
  induction i generalizing l with
  | zero => rfl
  | succ i ih =>
    cases l with
    | nil => simp
    | cons a rest =>
      rw [Nat.mul_succ, Nat.add_comm, ← List.drop_drop, List.flatMap_cons, List.drop_left' (constant a), ih,
        List.drop_succ_cons]

theorem take_flatMap (constant : ∀ a, (f a).length = size) (l : List α) (i : Nat) :
    (l.flatMap f).take (size * i) = (l.take i).flatMap f := by
  induction i generalizing l with
  | zero => simp
  | succ i ih =>
    cases l with
    | nil => simp
    | cons a rest =>
      rw [List.flatMap_cons, List.take_succ_cons, List.flatMap_cons, List.take_append, constant,
        List.take_of_length_le (by rw [constant, Nat.mul_succ]; omega), Nat.mul_succ, Nat.add_sub_cancel, ih]

theorem length_flatMap (constant : ∀ a, (f a).length = size) (l : List α) : (l.flatMap f).length = size * l.length := by
  induction l with
  | nil => rfl
  | cons a rest ih =>
    rw [List.flatMap_cons, List.length_append, constant, ih, List.length_cons, Nat.mul_succ]
    omega

end Records

end LittleEndian
