import Mathlib.Algebra.Group.Int.Defs
import Mathlib.Algebra.Group.Nat.Defs
import Mathlib.Data.List.Basic

/-!
# Byte strings and fixed-width integers

Byte strings are lists of `UInt8`. An unsigned integer of `w` bytes is written by `encode` and read back
by `decode`, least significant byte first for `.little` and most significant first for `.big`:

* `decode_encode` : reading what was written gives the number modulo `256 ^ w`;
* `encode_decode` : every `w` bytes are the encoding of the number they denote.

`slice` and `splice` are the slice expressions `s[i:j]` and slice assignments `s[i:j] = x` of a language
whose slices clamp to the end of the string.
-/

/-- A byte string. -/
abbrev Bytes := List UInt8

namespace Bytes

/-! ### Slices -/

/-- `s[i:j]`. -/
def slice (s : Bytes) (i j : Nat) : Bytes := (s.drop i).take (j - i)

/-- `s` after `s[i:j] = x`. -/
def splice (s : Bytes) (i j : Nat) (x : Bytes) : Bytes := s.take i ++ x ++ s.drop j

theorem slice_length (s : Bytes) (i j : Nat) : (slice s i j).length = min (j - i) (s.length - i) := by
  rw [slice, List.length_take, List.length_drop]

theorem splice_length {s x : Bytes} {i j : Nat} (hij : i ≤ j) (hj : j ≤ s.length)
    (hx : x.length = j - i) : (splice s i j x).length = s.length := by
  simp only [splice, List.length_append, List.length_take, List.length_drop]
  omega

theorem splice_length_eq (s x : Bytes) (i j : Nat) :
    (splice s i j x).length = min i s.length + x.length + (s.length - j) := by
  rw [splice, List.length_append, List.length_append, List.length_take, List.length_drop]

theorem le_splice_length {s x : Bytes} {i j : Nat} (hx : x.length = j - i) : s.length ≤ (splice s i j x).length := by
  rw [splice_length_eq, hx]
  omega

theorem splice_length_iff {s x : Bytes} {i j : Nat} (hij : i < j) (hx : x.length = j - i) :
    (splice s i j x).length = s.length ↔ j ≤ s.length := by
  rw [splice_length_eq, hx]
  omega

theorem slice_take_of_le (s : Bytes) (i : Nat) {j n : Nat} (h : j ≤ n) : slice (s.take n) i j = slice s i j := by
  rw [slice, slice, ← List.drop_take, ← List.drop_take, List.take_take, Nat.min_eq_left h]

theorem slice_append_slice (s : Bytes) {i j k : Nat} (hij : i ≤ j) (hjk : j ≤ k) :
    slice s i j ++ slice s j k = slice s i k := by
  have hsum : i + (j - i) = j := by omega
  have hwidth : k - i = j - i + (k - j) := by omega
  rw [slice, slice, slice, hwidth, List.take_add, List.drop_drop, hsum]

theorem head?_splice {s x : Bytes} {i j : Nat} {first : UInt8} (hs : s.head? = some first) (hi : 0 < i) :
    (splice s i j x).head? = some first := by
  rw [splice, List.append_assoc, List.head?_append, List.head?_take, if_neg (by omega), hs, Option.some_or]

theorem slice_append_left {s t : Bytes} {i j : Nat} (h : j ≤ s.length) : slice (s ++ t) i j = slice s i j := by
  rcases Nat.le_total i s.length with hi | hi
  · rw [slice, slice, List.drop_append_of_le_length hi, List.take_append_of_le_length]
    rw [List.length_drop]
    omega
  · have hempty : j - i = 0 := by omega
    rw [slice, slice, hempty, List.take_zero, List.take_zero]

theorem slice_append_right {s t : Bytes} {i j : Nat} (h : s.length ≤ i) :
    slice (s ++ t) i j = slice t (i - s.length) (j - s.length) := by
  have hwidth : j - s.length - (i - s.length) = j - i := by omega
  rw [slice, slice, List.drop_append, List.drop_eq_nil_of_le h, List.nil_append, hwidth]

theorem slice_all {s : Bytes} {j : Nat} (h : s.length ≤ j) : slice s 0 j = s := by
  rw [slice, List.drop_zero, Nat.sub_zero, List.take_of_length_le h]

section

variable {s x : Bytes} {i j n : Nat}

theorem splice_take_of_le (hn : n ≤ i) (hi : i ≤ s.length) : (splice s i j x).take n = s.take n := by
  have hlen : n ≤ (s.take i).length := by rw [List.length_take]; omega
  rw [splice, List.append_assoc, List.take_append_of_le_length hlen, List.take_take, Nat.min_eq_left hn]

theorem slice_splice_of_le {b : Nat} (hb : b ≤ i) (hi : i ≤ s.length) (a : Nat) :
    slice (splice s i j x) a b = slice s a b := by
  rw [slice, slice, ← List.drop_take, ← List.drop_take, splice_take_of_le hb hi]

variable (hij : i ≤ j) (hj : j ≤ s.length) (hx : x.length = j - i)

include hij hj hx

theorem splice_drop_of_ge (hn : j ≤ n) : (splice s i j x).drop n = s.drop n := by
  have hlen : (s.take i ++ x).length = j := by rw [List.length_append, List.length_take, hx]; omega
  have hsum : j + (n - j) = n := by omega
  rw [splice, List.drop_append, hlen, List.drop_drop, hsum, List.drop_eq_nil_of_le (by omega), List.nil_append]

theorem splice_take_of_ge (hn : j ≤ n) : (splice s i j x).take n = splice (s.take n) i j x := by
  have hlen : (s.take i ++ x).length = j := by rw [List.length_append, List.length_take, hx]; omega
  have htake : (s.take n).take i = s.take i := by rw [List.take_take, Nat.min_eq_left (by omega)]
  rw [splice, splice, List.take_append, hlen, htake, List.take_of_length_le (by omega), List.drop_take]

theorem splice_splice (y : Bytes) : splice (splice s i j x) i j y = splice s i j y := by
  have htake := splice_take_of_le (s := s) (x := x) (j := j) (Nat.le_refl i) (by omega)
  have hdrop := splice_drop_of_ge hij hj hx (Nat.le_refl j)
  rw [splice, htake, hdrop, splice]

theorem slice_splice : slice (splice s i j x) i j = x := by
  have hi : (s.take i).length = i := by rw [List.length_take]; omega
  rw [slice, splice, List.append_assoc, List.drop_left' hi, List.take_left' hx]

theorem slice_splice_of_ge {a : Nat} (ha : j ≤ a) (b : Nat) : slice (splice s i j x) a b = slice s a b := by
  rw [slice, splice_drop_of_ge hij hj hx ha, slice]

theorem getElem?_splice {k : Nat} (hk : k < i ∨ j ≤ k) : (splice s i j x)[k]? = s[k]? := by
  rcases hk with hk | hk
  · have htake := splice_take_of_le (s := s) (x := x) (j := j) (Nat.le_refl i) (by omega)
    rw [← List.getElem?_take_of_lt hk, htake, List.getElem?_take_of_lt hk]
  · have hdrop := congrArg (fun t => t[k - j]?) (splice_drop_of_ge hij hj hx (Nat.le_refl j))
    have hsum : j + (k - j) = k := by omega
    simpa only [List.getElem?_drop, hsum] using hdrop

theorem splice_eq_self_iff : splice s i j x = s ↔ slice s i j = x := by
  constructor
  · intro h
    rw [← h, slice_splice hij hj hx]
  · rintro rfl
    have hdrop : s.drop j = (s.drop i).drop (j - i) := by rw [List.drop_drop, Nat.add_sub_cancel' hij]
    rw [splice, slice, List.append_assoc, hdrop, List.take_append_drop, List.take_append_drop]

end

/-! ### Integers -/

/-- Byte order. -/
inductive Endian
  | little
  | big
  deriving DecidableEq, Repr

/-- The `w` low bytes of `n`, least significant first. -/
def encodeLittle : Nat → Nat → Bytes
  | 0, _ => []
  | w + 1, n => UInt8.ofNat n :: encodeLittle w (n / 256)

/-- The number denoted by bytes, least significant first. -/
def decodeLittle : Bytes → Nat
  | [] => 0
  | b :: s => b.toNat + 256 * decodeLittle s

/-- An unsigned integer of `w` bytes. -/
def encode (e : Endian) (w n : Nat) : Bytes :=
  match e with
  | .little => encodeLittle w n
  | .big => (encodeLittle w n).reverse

/-- The unsigned integer these bytes denote. -/
def decode (e : Endian) (s : Bytes) : Nat :=
  match e with
  | .little => decodeLittle s
  | .big => decodeLittle s.reverse

@[simp] theorem encodeLittle_length (w n : Nat) : (encodeLittle w n).length = w := by
  induction w generalizing n with
  | zero => rfl
  | succ w ih => rw [encodeLittle, List.length_cons, ih]

@[simp] theorem encode_length (e : Endian) (w n : Nat) : (encode e w n).length = w := by
  cases e with
  | little => exact encodeLittle_length w n
  | big => rw [encode, List.length_reverse, encodeLittle_length]

theorem decodeLittle_encodeLittle (w n : Nat) : decodeLittle (encodeLittle w n) = n % 256 ^ w := by
  induction w generalizing n with
  | zero => rw [encodeLittle, decodeLittle, Nat.pow_zero, Nat.mod_one]
  | succ w ih =>
    have hbyte : (UInt8.ofNat n).toNat = n % 256 := rfl
    rw [encodeLittle, decodeLittle, ih, hbyte, Nat.pow_succ', Nat.mod_mul]

theorem encodeLittle_decodeLittle (s : Bytes) : encodeLittle s.length (decodeLittle s) = s := by
  induction s with
  | nil => rfl
  | cons b s ih =>
    have hb := b.toNat_lt
    have hlow : UInt8.ofNat (b.toNat + 256 * decodeLittle s) = b := by
      apply UInt8.toNat_inj.mp
      rw [UInt8.toNat_ofNat']
      omega
    have hhigh : (b.toNat + 256 * decodeLittle s) / 256 = decodeLittle s := by omega
    rw [List.length_cons, decodeLittle, encodeLittle, hlow, hhigh, ih]

theorem decodeLittle_lt (s : Bytes) : decodeLittle s < 256 ^ s.length := by
  have h := decodeLittle_encodeLittle s.length (decodeLittle s)
  rw [encodeLittle_decodeLittle] at h
  rw [h]
  exact Nat.mod_lt _ (Nat.pow_pos (by decide))

/-- **Reading what was written** gives the number modulo the width. -/
theorem decode_encode (e : Endian) (w n : Nat) : decode e (encode e w n) = n % 256 ^ w := by
  cases e with
  | little => exact decodeLittle_encodeLittle w n
  | big => rw [decode, encode, List.reverse_reverse, decodeLittle_encodeLittle]

theorem decode_encode_of_lt {e : Endian} {w n : Nat} (h : n < 256 ^ w) :
    decode e (encode e w n) = n := by
  rw [decode_encode, Nat.mod_eq_of_lt h]

/-- **Writing what was read** gives the bytes back. -/
theorem encode_decode (e : Endian) (s : Bytes) : encode e s.length (decode e s) = s := by
  cases e with
  | little => exact encodeLittle_decodeLittle s
  | big =>
    have h := encodeLittle_decodeLittle s.reverse
    rw [List.length_reverse] at h
    rw [encode, decode, h, List.reverse_reverse]

theorem decode_lt (e : Endian) (s : Bytes) : decode e s < 256 ^ s.length := by
  cases e with
  | little => exact decodeLittle_lt s
  | big =>
    have h := decodeLittle_lt s.reverse
    rwa [List.length_reverse] at h

/-- An unsigned integer of `w` bytes, if it fits. -/
def pack (e : Endian) (w n : Nat) : Option Bytes := if n < 256 ^ w then some (encode e w n) else none

theorem pack_of_lt {e : Endian} {w n : Nat} (h : n < 256 ^ w) : pack e w n = some (encode e w n) := if_pos h

theorem length_of_pack {e : Endian} {w n : Nat} {s : Bytes} (h : pack e w n = some s) : s.length = w := by
  rw [pack] at h
  split_ifs at h
  obtain rfl := Option.some.inj h
  exact encode_length e w n

/-- The same for an integer that may be negative, which does not fit. -/
def packInt (e : Endian) (w : Nat) (i : Int) : Option Bytes := if i < 0 then none else pack e w i.toNat

theorem length_of_packInt {e : Endian} {w : Nat} {i : Int} {s : Bytes} (h : packInt e w i = some s) :
    s.length = w := by
  rw [packInt] at h
  split_ifs at h
  exact length_of_pack h

/-! ### Two's complement -/

/-- The signed 32-bit integer four bytes denote. -/
def decodeInt32 (e : Endian) (s : Bytes) : Int :=
  if decode e s < 2 ^ 31 then decode e s else (decode e s : Int) - 2 ^ 32

/-- A signed 32-bit integer. -/
def encodeInt32 (e : Endian) (i : Int) : Bytes := encode e 4 (i % 2 ^ 32).toNat

@[simp] theorem encodeInt32_length (e : Endian) (i : Int) : (encodeInt32 e i).length = 4 :=
  encode_length e 4 _

theorem decodeInt32_encodeInt32 {e : Endian} {i : Int} (hlo : -2 ^ 31 ≤ i) (hhi : i < 2 ^ 31) :
    decodeInt32 e (encodeInt32 e i) = i := by
  have hlt : (i % 2 ^ 32).toNat < 256 ^ 4 := by omega
  rw [decodeInt32, encodeInt32, decode_encode_of_lt hlt]
  split_ifs <;> omega

theorem encodeInt32_decodeInt32 (e : Endian) {s : Bytes} (hs : s.length = 4) :
    encodeInt32 e (decodeInt32 e s) = s := by
  have hlt := decode_lt e s
  rw [hs] at hlt
  have hnat : (decodeInt32 e s % 2 ^ 32).toNat = decode e s := by
    rw [decodeInt32]
    split_ifs <;> omega
  rw [encodeInt32, hnat]
  have h := encode_decode e s
  rwa [hs] at h

theorem decodeInt32_encode {e : Endian} {n : Nat} (hn : n < 2 ^ 31) :
    decodeInt32 e (encode e 4 n) = n := by
  have hlt : n < 256 ^ 4 := by omega
  rw [decodeInt32, decode_encode_of_lt hlt, if_pos hn]

end Bytes
