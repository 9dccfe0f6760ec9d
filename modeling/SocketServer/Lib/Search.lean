import Mathlib.Data.List.Basic
import Mathlib.Data.List.Infix

/-!
# Searching a list for its first suffix of a kind

* `firstSuffix P s` : the length of the shortest prefix of `s` behind which a suffix satisfying `P`
  starts. Substring search (`find`) is the case "starts with the pattern".
* `firstSuffix_skip` : a prefix in which no suffix satisfies `P` may be set aside and searched past.
  Every incremental search (one that reads its list in pieces and throws away what it has decided)
  rests on this lemma.
-/

namespace Search

variable {α : Type}

/-! ### First suffix -/

/-- How many elements precede the first suffix of `s` that satisfies `P` (the empty suffix included). -/
def firstSuffix (P : List α → Prop) [DecidablePred P] : List α → Option Nat
  | [] => if P [] then some 0 else none
  | a :: s => if P (a :: s) then some 0 else (firstSuffix P s).map (· + 1)

section firstSuffix

variable (P : List α → Prop) [DecidablePred P]

theorem firstSuffix_eq_some_iff (s : List α) (i : Nat) :
    firstSuffix P s = some i ↔ i ≤ s.length ∧ P (s.drop i) ∧ ∀ j < i, ¬ P (s.drop j) := by
  induction s generalizing i with
  | nil =>
    rw [firstSuffix]
    split_ifs with h
    · constructor
      · rintro ⟨⟩
        exact ⟨le_rfl, h, fun j hj => absurd hj (Nat.not_lt_zero j)⟩
      · rintro ⟨hi, -, -⟩
        rw [List.length_nil, Nat.le_zero] at hi
        rw [hi]
    · simp only [List.drop_nil, h, false_and, and_false]
  | cons a s ih =>
    rw [firstSuffix]
    split_ifs with h
    · constructor
      · rintro ⟨⟩
        exact ⟨Nat.zero_le _, h, fun j hj => absurd hj (Nat.not_lt_zero j)⟩
      · rintro ⟨-, -, hfirst⟩
        rcases Nat.eq_zero_or_pos i with rfl | hpos
        · rfl
        · exact absurd h (hfirst 0 hpos)
    · rw [Option.map_eq_some_iff]
      constructor
      · rintro ⟨k, hk, rfl⟩
        obtain ⟨hle, hP, hfirst⟩ := (ih k).mp hk
        refine ⟨Nat.succ_le_succ hle, hP, fun j hj => ?_⟩
        cases j with
        | zero => exact h
        | succ j => exact hfirst j (Nat.lt_of_succ_lt_succ hj)
      · rintro ⟨hle, hP, hfirst⟩
        cases i with
        | zero => exact absurd hP h
        | succ i =>
          refine ⟨i, (ih i).mpr ⟨Nat.le_of_succ_le_succ hle, hP, fun j hj => ?_⟩, rfl⟩
          exact hfirst (j + 1) (Nat.succ_lt_succ hj)

theorem firstSuffix_eq_none_iff (s : List α) :
    firstSuffix P s = none ↔ ∀ j ≤ s.length, ¬ P (s.drop j) := by
  induction s with
  | nil =>
    rw [firstSuffix]
    split_ifs with h
    · simp only [false_iff]
      exact fun hall => hall 0 le_rfl h
    · simp only [List.drop_nil, h, not_false_eq_true, implies_true]
  | cons a s ih =>
    rw [firstSuffix]
    split_ifs with h
    · simp only [false_iff]
      exact fun hall => hall 0 (Nat.zero_le _) h
    · rw [Option.map_eq_none_iff, ih]
      constructor
      · intro hall j hj
        cases j with
        | zero => exact h
        | succ j => exact hall j (Nat.le_of_succ_le_succ hj)
      · intro hall j hj
        exact hall (j + 1) (Nat.succ_le_succ hj)

theorem firstSuffix_skip (s : List α) (k : Nat) (hk : k ≤ s.length)
    (hnone : ∀ j < k, ¬ P (s.drop j)) :
    firstSuffix P s = (firstSuffix P (s.drop k)).map (· + k) := by
  induction k generalizing s with
  | zero => simp only [List.drop_zero, Nat.add_zero, Option.map_id']
  | succ k ih =>
    cases s with
    | nil => exact absurd hk (Nat.not_succ_le_zero k)
    | cons a s =>
      have hhead : ¬ P (a :: s) := hnone 0 (Nat.succ_pos k)
      rw [firstSuffix, if_neg hhead, List.drop_succ_cons,
        ih s (Nat.le_of_succ_le_succ hk) (fun j hj => hnone (j + 1) (Nat.succ_lt_succ hj)),
        Option.map_map]
      rfl

end firstSuffix

/-! ### Occurrences of a pattern -/

theorem le_of_prefix_drop {pat s : List α} {j : Nat} (hpat : pat ≠ []) (h : pat <+: s.drop j) :
    j + pat.length ≤ s.length := by
  have hle := h.length_le
  have hpos := List.length_pos_of_ne_nil hpat
  rw [List.length_drop] at hle
  omega

/-- An occurrence of a nonempty pattern in `a ++ b` that ends inside `a` is one in `a`. -/
theorem prefix_drop_append_iff (pat a b : List α) (j : Nat) (h : j + pat.length ≤ a.length) :
    pat <+: (a ++ b).drop j ↔ pat <+: a.drop j := by
  rw [List.drop_append_of_le_length (by omega)]
  constructor
  · intro hp
    refine List.prefix_of_prefix_length_le hp (List.prefix_append _ _) ?_
    rw [List.length_drop]
    omega
  · intro hp
    exact hp.trans (List.prefix_append _ _)

theorem occurrences_apart {c : α} {tail s : List α} {i j : Nat} (hc : c ∉ tail)
    (hi : c :: tail <+: s.drop i) (hj : c :: tail <+: s.drop j) (hij : i < j) :
    i + (c :: tail).length ≤ j := by
  by_contra hlt
  rw [List.length_cons, not_le] at hlt
  have hci : s[j]? = (c :: tail)[j - i]? := by
    obtain ⟨r, hr⟩ := hi
    have h := congrArg (·[j - i]?) hr
    simp only [List.getElem?_drop] at h
    rw [List.getElem?_append_left (by rw [List.length_cons]; omega), Nat.add_sub_cancel' hij.le] at h
    exact h.symm
  have hcj : s[j]? = some c := by
    obtain ⟨r, hr⟩ := hj
    have h := congrArg (·[0]?) hr
    simpa using h.symm
  obtain ⟨d, hd⟩ : ∃ d, j - i = d + 1 := ⟨j - i - 1, by omega⟩
  rw [hd, List.getElem?_cons_succ, hcj] at hci
  exact hc (List.mem_of_getElem? hci.symm)

/-! ### Substring search -/

variable [DecidableEq α]

/-- The index of the first occurrence of `pat` in `s` (`bytes.find`, with `none` for `-1`). -/
def find (pat s : List α) : Option Nat := firstSuffix (pat <+: ·) s

theorem find_eq_some_iff (pat s : List α) (i : Nat) :
    find pat s = some i ↔ i ≤ s.length ∧ pat <+: s.drop i ∧ ∀ j < i, ¬ pat <+: s.drop j :=
  firstSuffix_eq_some_iff _ s i

theorem find_eq_none_iff (pat s : List α) :
    find pat s = none ↔ ∀ j ≤ s.length, ¬ pat <+: s.drop j :=
  firstSuffix_eq_none_iff _ s

/-- A search that succeeds on the part read so far succeeds at the same index on the whole. -/
theorem find_append_of_some {pat a : List α} {i : Nat} (b : List α) (hpat : pat ≠ [])
    (h : find pat a = some i) : find pat (a ++ b) = some i := by
  obtain ⟨hle, hp, hfirst⟩ := (find_eq_some_iff pat a i).mp h
  have hin := le_of_prefix_drop hpat hp
  refine (find_eq_some_iff pat _ i).mpr ⟨by rw [List.length_append]; omega, ?_, fun j hj => ?_⟩
  · exact (prefix_drop_append_iff pat a b i hin).mpr hp
  · rw [prefix_drop_append_iff pat a b j (by omega)]
    exact hfirst j hj

theorem not_prefix_of_find_none {pat a : List α} (b : List α) {j : Nat} (h : find pat a = none)
    (hj : j + pat.length ≤ a.length) : ¬ pat <+: (a ++ b).drop j := by
  rw [prefix_drop_append_iff pat a b j hj]
  exact (find_eq_none_iff pat a).mp h j (by omega)

end Search
