import SocketServer.Lib.Bytes

/-!
# Ones' complement sums

The sum of the big-endian 16-bit words of a byte string, a last odd byte standing for the high byte of a word. `total`
adds the words as numbers, `sum` adds them with the carry going round, as the Internet checksum does.

* `sum_represents` : `sum` is the representative of `total` modulo `65535` in `1 .. 65535`, or zero if all words are;
* `fold_eq_foldAll` : below `2 ^ 32`, folding the carries twice folds all of them;
* `total_append` : a string behind one of odd length counts as if a zero byte stood before it.
-/

namespace OnesComplement

open Bytes

/-- The sum of the words. -/
def total : Bytes → Nat
  | [] => 0
  | [a] => a.toNat * 256
  | a :: b :: s => a.toNat * 256 + b.toNat + total s

/-- Addition with the carry going round. -/
def add (a b : Nat) : Nat := if a + b < 65536 then a + b else a + b - 65535

/-- The ones' complement sum of the words. -/
def sum : Bytes → Nat
  | [] => 0
  | [a] => a.toNat * 256
  | a :: b :: s => add (a.toNat * 256 + b.toNat) (sum s)

/-- `n` is a ones' complement sum of words that add up to `t`. -/
def Represents (n t : Nat) : Prop := n ≤ 65535 ∧ n % 65535 = t % 65535 ∧ (n = 0 ↔ t = 0)

theorem Represents.add {n m t u : Nat} (hn : Represents n t) (hm : Represents m u) : Represents (add n m) (t + u) := by
  obtain ⟨hle, hmod, hzero⟩ := hn
  obtain ⟨hle', hmod', hzero'⟩ := hm
  rw [OnesComplement.add, Represents]
  split <;> omega

theorem Represents.self {n : Nat} (h : n ≤ 65535) : Represents n n := ⟨h, rfl, Iff.rfl⟩

theorem sum_represents (s : Bytes) : Represents (sum s) (total s) := by
  induction s using total.induct with
  | case1 => exact .self (Nat.zero_le _)
  | case2 a =>
    have ha := a.toNat_lt
    have hle : a.toNat * 256 ≤ 65535 := by omega
    exact .self hle
  | case3 a b s ih =>
    have ha := a.toNat_lt
    have hb := b.toNat_lt
    exact (Represents.self (by omega)).add ih

/-- Folding the carries of a sum below `2 ^ 32` twice. -/
def fold (t : Nat) : Nat := (t / 65536 + t % 65536 + (t / 65536 + t % 65536) / 65536) % 65536

theorem fold_represents {t : Nat} (h : t < 2 ^ 32) : Represents (fold t) t := by
  have ht : t = 65536 * (t / 65536) + t % 65536 := (Nat.div_add_mod t 65536).symm
  have hlow : t % 65536 < 65536 := Nat.mod_lt t (by decide)
  have hhigh : t / 65536 < 65536 := by omega
  rw [fold, Represents]
  generalize t / 65536 = high at *
  generalize t % 65536 = low at *
  rcases Nat.lt_or_ge (high + low) 65536 with hsum | hsum
  · have hcarry : (high + low) / 65536 = 0 := Nat.div_eq_of_lt hsum
    rw [hcarry, Nat.add_zero, Nat.mod_eq_of_lt hsum]
    omega
  · have hcarry : (high + low) / 65536 = 1 := by omega
    have hwrap : (high + low + 1) % 65536 = high + low - 65535 := by omega
    rw [hcarry, hwrap]
    omega

/-- Folding gives all ones exactly when the words add up to a positive multiple of `65535`. -/
theorem fold_eq_allOnes_iff {t : Nat} (h : t < 2 ^ 32) : fold t = 65535 ↔ 0 < t ∧ t % 65535 = 0 := by
  obtain ⟨hle, hmod, hzero⟩ := fold_represents h
  omega

theorem Represents.unique {n m t : Nat} (hn : Represents n t) (hm : Represents m t) : n = m := by
  obtain ⟨hle, hmod, hzero⟩ := hn
  obtain ⟨hle', hmod', hzero'⟩ := hm
  omega

/-- Folding the carries of a sum until none is left. -/
def foldAll (t : Nat) : Nat := if t < 65536 then t else foldAll (t / 65536 + t % 65536)
termination_by t

theorem Represents.of_fold_once {n t : Nat} (h : Represents n (t / 65536 + t % 65536)) : Represents n t := by
  obtain ⟨hle, hmod, hzero⟩ := h
  have ht : t = 65536 * (t / 65536) + t % 65536 := (Nat.div_add_mod t 65536).symm
  refine ⟨hle, ?_, ?_⟩ <;> omega

theorem foldAll_represents (t : Nat) : Represents (foldAll t) t := by
  induction t using foldAll.induct with
  | case1 t h =>
    rw [foldAll, if_pos h]
    exact .self (by omega)
  | case2 t h ih =>
    rw [foldAll, if_neg h]
    exact ih.of_fold_once

/-- **Two folds are enough** below `2 ^ 32`. -/
theorem fold_eq_foldAll {t : Nat} (h : t < 2 ^ 32) : fold t = foldAll t :=
  (fold_represents h).unique (foldAll_represents t)

theorem foldAll_total (s : Bytes) : foldAll (total s) = sum s := (foldAll_represents _).unique (sum_represents s)

theorem sum_eq_allOnes_iff (s : Bytes) : sum s = 65535 ↔ 0 < total s ∧ total s % 65535 = 0 := by
  obtain ⟨hle, hmod, hzero⟩ := sum_represents s
  omega

/-! ### Concatenation -/

theorem total_append_of_even {s : Bytes} (h : s.length % 2 = 0) (t : Bytes) : total (s ++ t) = total s + total t := by
  induction s using total.induct with
  | case1 => rw [List.nil_append, total, Nat.zero_add]
  | case2 a => cases h
  | case3 a b s ih =>
    have hs : s.length % 2 = 0 := by
      rw [List.length_cons, List.length_cons] at h
      omega
    rw [List.cons_append, List.cons_append, total, total, ih hs]
    omega

/-- **Concatenation**: behind a string of odd length, as behind a zero byte. -/
theorem total_append (s t : Bytes) : total (s ++ t) = total s + total (List.replicate (s.length % 2) 0 ++ t) := by
  induction s using total.induct with
  | case1 => rw [List.nil_append, total, Nat.zero_add]; rfl
  | case2 a =>
    cases t with
    | nil =>
      have hpad : total (List.replicate ([a].length % 2) 0 ++ []) = 0 := rfl
      rw [hpad, List.append_nil, Nat.add_zero]
    | cons b t =>
      have hpad : total (List.replicate ([a].length % 2) 0 ++ b :: t) = 0 * 256 + b.toNat + total t := rfl
      rw [hpad, List.singleton_append, total, total]
      omega
  | case3 a b s ih =>
    have hlen : (a :: b :: s).length % 2 = s.length % 2 := by
      rw [List.length_cons, List.length_cons]
      omega
    rw [List.cons_append, List.cons_append, total, total, ih, hlen]
    omega

theorem total_append_zero {s : Bytes} (h : s.length % 2 = 1) : total (s ++ [0]) = total s := by
  have hpad : total (List.replicate 1 0 ++ [0]) = 0 := rfl
  rw [total_append, h, hpad, Nat.add_zero]

theorem total_encode {n : Nat} (h : n < 65536) : total (encode .big 2 n) = n := by
  change total [UInt8.ofNat (n / 256), UInt8.ofNat n] = n
  simp only [total, UInt8.toNat_ofNat']
  omega

theorem total_encode_four {n : Nat} (h : n < 65536) : total (encode .big 4 n) = n := by
  change total [UInt8.ofNat (n / 256 / 256 / 256), UInt8.ofNat (n / 256 / 256), UInt8.ofNat (n / 256), UInt8.ofNat n] = n
  simp only [total, UInt8.toNat_ofNat']
  omega

theorem total_zeros (n : Nat) : total (List.replicate n 0) = 0 := by
  match n with
  | 0 => rfl
  | 1 => rfl
  | n + 2 =>
    have hn := total_zeros n
    rw [List.replicate_succ, List.replicate_succ, total, hn]
    rfl

theorem total_le (s : Bytes) : total s ≤ 65535 * ((s.length + 1) / 2) := by
  induction s using total.induct with
  | case1 => exact Nat.zero_le _
  | case2 a =>
    have ha := a.toNat_lt
    rw [total, List.length_singleton]
    omega
  | case3 a b s ih =>
    have ha := a.toNat_lt
    have hb := b.toNat_lt
    rw [total, List.length_cons, List.length_cons]
    omega

theorem total_splice {s : Bytes} {i n : Nat} (hi : i % 2 = 0) (hs : i + 2 ≤ s.length) (hn : n < 65536) :
    total (splice s i (i + 2) (encode .big 2 n)) = total (splice s i (i + 2) [0, 0]) + n := by
  have hlen : (s.take i).length % 2 = 0 := by rw [List.length_take]; omega
  have hword (x : Bytes) (hx : x.length = 2) :
      total (splice s i (i + 2) x) = total (s.take i) + total x + total (s.drop (i + 2)) := by
    rw [splice, total_append_of_even, total_append_of_even hlen]
    rw [List.length_append, hx]
    omega
  rw [hword _ (encode_length ..), hword _ rfl, total_encode hn]
  change _ = total (s.take i) + 0 + _ + n
  omega

end OnesComplement
