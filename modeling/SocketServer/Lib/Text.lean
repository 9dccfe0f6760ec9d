import Mathlib.Data.List.DropRight
import SocketServer.Lib.Bytes

/-!
# Python strings

Strings as lists of characters, with the methods and conversions of Python that programs apply to text from
outside: UTF-8, `strip`, `int` and the character classes of regular expressions. What a class says about characters
beyond ASCII is a table that the definitions take as it comes.
-/

/-- A character string. -/
abbrev Str := List Char

namespace Text

/-! ### UTF-8 -/

/-- One character of `bytes.decode("utf-8", "replace")` at lead byte `b`, and how many of the bytes behind it
belong to it. A sequence that breaks off is replaced up to the byte that cannot continue it. -/
def utf8Step (b : UInt8) (s : Bytes) : Char × Nat :=
  let lead := b.toNat
  let within (lo hi : Nat) (c : UInt8) : Bool := lo ≤ c.toNat && c.toNat ≤ hi
  let low (c : UInt8) : Nat := c.toNat % 64
  let bad := Char.ofNat 0xFFFD
  if lead < 0x80 then (Char.ofNat lead, 0)
  else if within 0xC2 0xDF b then
    match s with
    | c :: _ => if within 0x80 0xBF c then (Char.ofNat (lead % 32 * 64 + low c), 1) else (bad, 0)
    | [] => (bad, 0)
  else if within 0xE0 0xEF b then
    match s with
    | c :: s =>
      if within (if lead = 0xE0 then 0xA0 else 0x80) (if lead = 0xED then 0x9F else 0xBF) c then
        match s with
        | d :: _ =>
          if within 0x80 0xBF d then (Char.ofNat (lead % 16 * 4096 + low c * 64 + low d), 2) else (bad, 1)
        | [] => (bad, 1)
      else (bad, 0)
    | [] => (bad, 0)
  else if within 0xF0 0xF4 b then
    match s with
    | c :: s =>
      if within (if lead = 0xF0 then 0x90 else 0x80) (if lead = 0xF4 then 0x8F else 0xBF) c then
        match s with
        | d :: s =>
          if within 0x80 0xBF d then
            match s with
            | e :: _ =>
              if within 0x80 0xBF e then
                (Char.ofNat (lead % 8 * 262144 + low c * 4096 + low d * 64 + low e), 3)
              else (bad, 2)
            | [] => (bad, 2)
          else (bad, 1)
        | [] => (bad, 1)
      else (bad, 0)
    | [] => (bad, 0)
  else (bad, 0)

/-- The characters of `s`, at most `fuel` of them. -/
def decodeUtf8Loop : Nat → Bytes → Str
  | 0, _ => []
  | _ + 1, [] => []
  | fuel + 1, b :: s => (utf8Step b s).1 :: decodeUtf8Loop fuel (s.drop (utf8Step b s).2)

/-- `s.decode("utf-8", "replace")`. -/
def decodeUtf8 (s : Bytes) : Str := decodeUtf8Loop s.length s

@[simp] theorem decodeUtf8_eq_nil {s : Bytes} : decodeUtf8 s = [] ↔ s = [] := by
  cases s with
  | nil => exact iff_of_true rfl rfl
  | cons b s => exact iff_of_false (List.cons_ne_nil _ _) (List.cons_ne_nil _ _)

/-- `str.encode()`. -/
def encodeUtf8 (s : Str) : Bytes := s.flatMap String.utf8EncodeChar

theorem utf8Step_one {b : UInt8} (s : Bytes) (h : b.toNat < 0x80) : utf8Step b s = (Char.ofNat b.toNat, 0) :=
  if_pos h

section wellFormed

variable {b c d e : UInt8} (s : Bytes)

theorem utf8Step_two (hb : 0xC2 ≤ b.toNat ∧ b.toNat ≤ 0xDF) (hc : 0x80 ≤ c.toNat ∧ c.toNat ≤ 0xBF) :
    utf8Step b (c :: s) = (Char.ofNat (b.toNat % 32 * 64 + c.toNat % 64), 1) := by
  have hone : ¬ b.toNat < 0x80 := by omega
  simp [utf8Step, hone, hb, hc]

theorem utf8Step_three (hb : 0xE0 ≤ b.toNat ∧ b.toNat ≤ 0xEF)
    (hc : (if b.toNat = 0xE0 then 0xA0 else 0x80) ≤ c.toNat ∧ c.toNat ≤ (if b.toNat = 0xED then 0x9F else 0xBF))
    (hd : 0x80 ≤ d.toNat ∧ d.toNat ≤ 0xBF) :
    utf8Step b (c :: d :: s) = (Char.ofNat (b.toNat % 16 * 4096 + c.toNat % 64 * 64 + d.toNat % 64), 2) := by
  have hone : ¬ b.toNat < 0x80 := by omega
  have htwo : ¬ b.toNat ≤ 0xDF := by omega
  simp [utf8Step, hone, htwo, hb, hc, hd]

theorem utf8Step_four (hb : 0xF0 ≤ b.toNat ∧ b.toNat ≤ 0xF4)
    (hc : (if b.toNat = 0xF0 then 0x90 else 0x80) ≤ c.toNat ∧ c.toNat ≤ (if b.toNat = 0xF4 then 0x8F else 0xBF))
    (hd : 0x80 ≤ d.toNat ∧ d.toNat ≤ 0xBF) (he : 0x80 ≤ e.toNat ∧ e.toNat ≤ 0xBF) :
    utf8Step b (c :: d :: e :: s) =
      (Char.ofNat (b.toNat % 8 * 262144 + c.toNat % 64 * 4096 + d.toNat % 64 * 64 + e.toNat % 64), 3) := by
  have hone : ¬ b.toNat < 0x80 := by omega
  have htwo : ¬ b.toNat ≤ 0xDF := by omega
  have hthree : ¬ b.toNat ≤ 0xEF := by omega
  simp [utf8Step, hone, htwo, hthree, hb, hc, hd, he]

end wellFormed

theorem utf8Step_encode (c : Char) (s : Bytes) :
    ∃ b t, String.utf8EncodeChar c = b :: t ∧ utf8Step b (t ++ s) = (c, t.length) := by
  have hvalid : c.toNat < 0xD800 ∨ 0xDFFF < c.toNat ∧ c.toNat < 0x110000 := c.valid
  have hread : ∀ n, n = c.toNat → Char.ofNat n = c := by
    rintro _ rfl
    exact Char.ofNat_toNat c
  have hbyte : ∀ n, n < 256 → (UInt8.ofNat n).toNat = n := fun n hn => by
    rw [UInt8.toNat_ofNat', Nat.mod_eq_of_lt hn]
  unfold String.utf8EncodeChar
  rw [show c.val.toNat = c.toNat from rfl]
  dsimp only
  split_ifs with hone htwo hthree
  · refine ⟨_, _, rfl, (utf8Step_one _ ?_).trans ?_⟩
    all_goals rw [hbyte _ (by omega)]
    · omega
    · rw [hread _ rfl]
      rfl
  · refine ⟨_, _, rfl, (utf8Step_two s ?_ ?_).trans ?_⟩
    all_goals rw [hbyte _ (by omega)]
    · omega
    · omega
    · rw [hbyte _ (by omega), hread _ (by omega)]
      rfl
  · -- the second byte rules out overlong forms and surrogates
    refine ⟨_, _, rfl, (utf8Step_three s ?_ ?_ ?_).trans ?_⟩
    all_goals rw [hbyte _ (by omega)]
    · omega
    · rw [hbyte _ (by omega)]
      split_ifs <;> omega
    · omega
    · rw [hbyte _ (by omega), hbyte _ (by omega), hread _ (by omega)]
      rfl
  · refine ⟨_, _, rfl, (utf8Step_four s ?_ ?_ ?_ ?_).trans ?_⟩
    all_goals rw [hbyte _ (by omega)]
    · omega
    · rw [hbyte _ (by omega)]
      split_ifs <;> omega
    · omega
    · omega
    · rw [hbyte _ (by omega), hbyte _ (by omega), hbyte _ (by omega), hread _ (by omega)]
      rfl

theorem decodeUtf8Loop_encode (s : Str) (fuel : Nat) (hfuel : (encodeUtf8 s).length ≤ fuel) :
    decodeUtf8Loop fuel (encodeUtf8 s) = s := by
  induction s generalizing fuel with
  | nil => cases fuel <;> rfl
  | cons c s ih =>
    obtain ⟨b, t, hchar, hstep⟩ := utf8Step_encode c (encodeUtf8 s)
    have hcons : encodeUtf8 (c :: s) = b :: (t ++ encodeUtf8 s) := by
      rw [encodeUtf8, List.flatMap_cons, hchar]
      rfl
    rw [hcons, List.length_cons, List.length_append] at hfuel
    obtain ⟨fuel, rfl⟩ : ∃ n, fuel = n + 1 := ⟨fuel - 1, by omega⟩
    rw [hcons, decodeUtf8Loop, hstep, List.drop_left, ih fuel (by omega)]

/-- **What `encode` makes of a text, `decode` reads back.** -/
@[simp] theorem decodeUtf8_encodeUtf8 (s : Str) : decodeUtf8 (encodeUtf8 s) = s :=
  decodeUtf8Loop_encode s _ (Nat.le_refl _)

theorem toNat_of_mem_utf8EncodeChar {b : UInt8} {c : Char} (hb : b.toNat < 0x80)
    (h : b ∈ String.utf8EncodeChar c) : c.toNat = b.toNat := by
  have hbyte : ∀ n, n < 256 → b = UInt8.ofNat n → n = b.toNat := by
    rintro n hn rfl
    rw [UInt8.toNat_ofNat', Nat.mod_eq_of_lt hn]
  unfold String.utf8EncodeChar at h
  rw [show c.val.toNat = c.toNat from rfl] at h
  dsimp only at h
  split_ifs at h
  all_goals simp only [List.mem_cons, List.not_mem_nil, or_false] at h
  · exact hbyte _ (by omega) h
  -- the bytes of a longer encoding are 0x80 and above
  · rcases h with h | h
    all_goals
      have := hbyte _ (by omega) h
      omega
  · rcases h with h | h | h
    all_goals
      have := hbyte _ (by omega) h
      omega
  · rcases h with h | h | h | h
    all_goals
      have := hbyte _ (by omega) h
      omega

theorem mem_of_mem_encodeUtf8 {c : Char} {s : Str} (hc : c.toNat < 0x80)
    (h : UInt8.ofNat c.toNat ∈ encodeUtf8 s) : c ∈ s := by
  obtain ⟨c', hc', hmem⟩ := List.mem_flatMap.mp h
  have hbyte : (UInt8.ofNat c.toNat).toNat = c.toNat := by
    rw [UInt8.toNat_ofNat', Nat.mod_eq_of_lt (by omega)]
  have hsame := toNat_of_mem_utf8EncodeChar (by omega) hmem
  rw [hbyte] at hsame
  rwa [← Char.toNat_inj.mp hsame]

@[simp] theorem encodeUtf8_append (s t : Str) : encodeUtf8 (s ++ t) = encodeUtf8 s ++ encodeUtf8 t :=
  List.flatMap_append

/-! ### Latin-1 -/

def isLatin1 (s : Str) : Bool := s.all fun c => c.toNat < 256

def latin1Bytes (s : Str) : Bytes := s.map fun c => UInt8.ofNat c.toNat

/-- `str.encode("latin-1", "strict")`, `none` if it raises. -/
def encodeLatin1 (s : Str) : Option Bytes := if isLatin1 s then some (latin1Bytes s) else none

@[simp] theorem isLatin1_append (s t : Str) : isLatin1 (s ++ t) = (isLatin1 s && isLatin1 t) := List.all_append

@[simp] theorem latin1Bytes_append (s t : Str) : latin1Bytes (s ++ t) = latin1Bytes s ++ latin1Bytes t :=
  List.map_append

/-! ### Character classes -/

/-- `\w`. -/
def isWordChar (alnum : Char → Bool) (c : Char) : Bool :=
  if c.toNat < 128 then c.isAlphanum || c == '_' else alnum c

/-- `\d`. -/
def isDigitChar (digit : Char → Bool) (c : Char) : Bool :=
  if c.toNat < 128 then c.isDigit else digit c

/-- `str.isspace` of one character. -/
def isSpace (c : Char) : Bool :=
  let n := c.toNat
  (9 ≤ n && n ≤ 13) || (28 ≤ n && n ≤ 32) || n == 0x85 || n == 0xA0 || n == 0x1680 ||
    (0x2000 ≤ n && n ≤ 0x200A) || n == 0x2028 || n == 0x2029 || n == 0x202F || n == 0x205F || n == 0x3000

/-! ### Methods -/

/-- `str.strip` of the characters `p`. -/
def strip (p : Char → Bool) (s : Str) : Str := ((s.dropWhile p).reverse.dropWhile p).reverse

/-- The characters `p` are not at the ends of the text. -/
structure Stripped (p : Char → Bool) (s : Str) : Prop where
  head : ∀ c ∈ s.head?, p c = false
  last : ∀ c ∈ s.getLast?, p c = false

theorem strip_eq_rdropWhile (p : Char → Bool) (s : Str) : strip p s = (s.dropWhile p).rdropWhile p := rfl

theorem stripped_strip (p : Char → Bool) (s : Str) : Stripped p (strip p s) := by
  rw [strip_eq_rdropWhile]
  constructor
  · intro c hc
    have hprefix := List.rdropWhile_prefix p (s.dropWhile p)
    have hhead : c ∈ (s.dropWhile p).head? := by
      obtain ⟨t, ht⟩ := hprefix
      rw [← ht, List.head?_append, Option.mem_def.mp hc]
      rfl
    have hnot := List.head?_dropWhile_not p s
    rw [Option.mem_def.mp hhead] at hnot
    exact hnot
  · intro c hc
    have hne : (s.dropWhile p).rdropWhile p ≠ [] := by
      rintro hnil
      rw [hnil] at hc
      cases hc
    have hlast := Option.some.inj ((List.getLast?_eq_some_getLast hne).symm.trans hc)
    have hnot := List.rdropWhile_last_not p (s.dropWhile p) hne
    rw [hlast] at hnot
    exact Bool.eq_false_iff.mpr hnot

theorem strip_of_stripped {p : Char → Bool} {s : Str} (h : Stripped p s) : strip p s = s := by
  have hdrop : s.dropWhile p = s := by
    cases s with
    | nil => rfl
    | cons c s => rw [List.dropWhile_cons, h.head c rfl, if_neg Bool.false_ne_true]
  rw [strip_eq_rdropWhile, hdrop, List.rdropWhile_eq_self_iff]
  intro hne hlast
  rw [h.last _ (List.getLast?_eq_some_getLast hne)] at hlast
  cases hlast

theorem mem_of_mem_strip {p : Char → Bool} {s : Str} {c : Char} (h : c ∈ strip p s) : c ∈ s :=
  (List.dropWhile_sublist p).subset ((List.rdropWhile_prefix p _).subset h)

/-- Decimal digits, with single underscores between them. -/
def parseDigits : Nat → Bool → Str → Option Nat
  | acc, digit, [] => if digit then some acc else none
  | acc, digit, c :: s =>
    if c.isDigit then parseDigits (acc * 10 + (c.toNat - 48)) true s
    else if c = '_' ∧ digit then parseDigits acc false s
    else none

/-- `int(s)`, for text without decimal digits beyond ASCII. -/
def parseInt (s : Str) : Option Int :=
  match strip isSpace s with
  | '-' :: digits => (parseDigits 0 false digits).map fun n => -(n : Int)
  | '+' :: digits => (parseDigits 0 false digits).map fun n => (n : Int)
  | digits => (parseDigits 0 false digits).map fun n => (n : Int)

end Text
