import Mathlib.Data.List.SplitBy
import SocketServer.Lib.Inet

/-!
# Percent-encoding and query strings

`quote`, `unquote` and `parse_qs` of `urllib.parse`, with UTF-8. A `%` that two hexadecimal digits follow is an escape;
any other `%` stands for itself.

* `unquote_quote` : decoding undoes encoding;
* `unquote_plain` : a text without escapes is decoded to itself;
* `queryValues_quote` : the value of a query that was encoded.
-/

namespace Urls

open Text

/-! ### Encoding -/

/-- The bytes that `quote` leaves alone, with `/` among them. -/
def isSafe (b : UInt8) : Bool := (Char.ofNat b.toNat).isAlphanum || Char.ofNat b.toNat ∈ ['_', '.', '-', '~', '/']

/-- A hexadecimal digit. -/
def hexDigit (n : Nat) : Char := Char.ofNat (if n < 10 then 48 + n else 55 + n)

def quoteByte (b : UInt8) : Str :=
  if isSafe b then [Char.ofNat b.toNat] else ['%', hexDigit (b.toNat / 16), hexDigit (b.toNat % 16)]

/-- `quote(s)`. -/
def quote (s : Str) : Str := (encodeUtf8 s).flatMap quoteByte

/-! ### Decoding -/

/-- The byte of an escape with these digits. -/
def escapedByte (a b : Char) : Option UInt8 := do
  let hi ← Inet.digitValue a
  let lo ← Inet.digitValue b
  some (UInt8.ofNat (hi * 16 + lo))

/-- `unquote_to_bytes(s)`. -/
def unquoteToBytes : Str → Bytes
  | [] => []
  | '%' :: a :: b :: s =>
    match escapedByte a b with
    | some x => x :: unquoteToBytes s
    | none => 0x25 :: unquoteToBytes (a :: b :: s)
  | c :: s => String.utf8EncodeChar c ++ unquoteToBytes s

def isAscii (c : Char) : Bool := c.toNat < 0x80

/-- A longest part of a text with ASCII characters only, or without any. -/
def unquoteRun (run : Str) : Str := if run.all isAscii then decodeUtf8 (unquoteToBytes run) else run

/-- `unquote(s)`. -/
def unquote (s : Str) : Str :=
  if '%' ∈ s then (s.splitBy fun a b => isAscii a == isAscii b).flatMap unquoteRun else s

/-- A name and a value, with `+` for blanks. -/
def parseField (field : Str) : Option (Str × Str) :=
  if field = [] then none
  else
    let plus (s : Str) := s.map fun c => if c = '+' then ' ' else c
    some (unquote (plus (field.takeWhile (· ≠ '='))), unquote (plus ((field.dropWhile (· ≠ '=')).drop 1)))

/-- `parse_qs(qs, keep_blank_values=True).get(name)`, with no values for `None`. -/
def queryValues (qs name : Str) : List Str :=
  (((qs.splitOn '&').filterMap parseField).filter fun field => field.1 = name).map Prod.snd

/-! ### Decoding undoes encoding -/

theorem digitValue_hexDigit : ∀ n < 16, Inet.digitValue (hexDigit n) = some n := by decide

theorem quoteByte_plain (b : UInt8) : ∀ c ∈ quoteByte b, isAscii c ∧ c ≠ '+' ∧ c ≠ '&' := by
  have hall : ∀ n < 256, (quoteByte (UInt8.ofNat n)).all (fun c => isAscii c ∧ c ≠ '+' ∧ c ≠ '&') := by decide +kernel
  have hb := hall b.toNat b.toNat_lt
  rw [UInt8.ofNat_toNat] at hb
  exact fun c hc => of_decide_eq_true (List.all_eq_true.mp hb c hc)

theorem quote_plain (s : Str) : ∀ c ∈ quote s, isAscii c ∧ c ≠ '+' ∧ c ≠ '&' := by
  intro c hc
  obtain ⟨b, -, hb⟩ := List.mem_flatMap.mp hc
  exact quoteByte_plain b c hb

theorem safe_char (b : UInt8) (h : isSafe b) :
    Char.ofNat b.toNat ≠ '%' ∧ String.utf8EncodeChar (Char.ofNat b.toNat) = [b] := by
  have hall : ∀ n < 256, isSafe (UInt8.ofNat n) = true →
      Char.ofNat (UInt8.ofNat n).toNat ≠ '%' ∧
        String.utf8EncodeChar (Char.ofNat (UInt8.ofNat n).toNat) = [UInt8.ofNat n] := by decide +kernel
  have hb := hall b.toNat b.toNat_lt
  rw [UInt8.ofNat_toNat] at hb
  exact hb h

theorem unquoteToBytes_cons {c : Char} (hc : c ≠ '%') (s : Str) :
    unquoteToBytes (c :: s) = String.utf8EncodeChar c ++ unquoteToBytes s := by
  rw [unquoteToBytes]
  rintro a b s rfl
  exact absurd rfl hc

theorem unquoteToBytes_quoteByte (b : UInt8) (s : Str) :
    unquoteToBytes (quoteByte b ++ s) = b :: unquoteToBytes s := by
  unfold quoteByte
  split_ifs with hsafe
  · obtain ⟨hne, hchar⟩ := safe_char b hsafe
    rw [List.singleton_append, unquoteToBytes_cons hne, hchar]
    rfl
  · have hbyte := b.toNat_lt
    have hescaped : escapedByte (hexDigit (b.toNat / 16)) (hexDigit (b.toNat % 16)) = some b := by
      rw [escapedByte, digitValue_hexDigit _ (by omega), digitValue_hexDigit _ (by omega)]
      simp only [Option.bind_eq_bind, Option.bind_some]
      rw [Nat.div_add_mod', UInt8.ofNat_toNat]
    simp only [List.cons_append, List.nil_append]
    rw [unquoteToBytes, hescaped]

theorem unquoteToBytes_quote (s : Bytes) : unquoteToBytes (s.flatMap quoteByte) = s := by
  induction s with
  | nil => rfl
  | cons b s ih => rw [List.flatMap_cons, unquoteToBytes_quoteByte, ih]

theorem unquote_ascii {s : Str} (h : ∀ c ∈ s, isAscii c) (hmem : '%' ∈ s) :
    unquote s = decodeUtf8 (unquoteToBytes s) := by
  have hchain : s.IsChain fun a b => isAscii a == isAscii b :=
    (List.pairwise_iff_forall_sublist.mpr fun {a b} hsub => by
      rw [h a (hsub.subset List.mem_cons_self), h b (hsub.subset (List.mem_cons_of_mem a List.mem_cons_self))]
      rfl).isChain
  rw [unquote, if_pos hmem, List.splitBy_of_isChain (List.ne_nil_of_mem hmem) hchain, List.flatMap_singleton, unquoteRun,
    if_pos (List.all_eq_true.mpr h)]

/-! ### Texts without escapes -/

/-- No `%` is followed by two hexadecimal digits. -/
def Plain (s : Str) : Prop := ∀ a b, ['%', a, b] <:+: s → escapedByte a b = none

theorem Plain.part {s t : Str} (h : Plain s) (ht : t <:+: s) : Plain t :=
  fun a b hwithin => h a b (hwithin.trans ht)

theorem plain_of_notMem {s : Str} (h : '%' ∉ s) : Plain s :=
  fun _ _ hwithin => absurd (hwithin.subset List.mem_cons_self) h

theorem unquoteToBytes_plain {s : Str} (h : Plain s) : unquoteToBytes s = encodeUtf8 s := by
  induction s using unquoteToBytes.induct with
  | case1 => rfl
  | case2 a b s x hescaped ih =>
    rw [h a b ⟨[], s, rfl⟩] at hescaped
    cases hescaped
  | case3 a b s hescaped ih =>
    rw [unquoteToBytes, hescaped]
    dsimp only
    rw [ih (h.part (List.suffix_cons _ _).isInfix)]
    rfl
  | case4 c s hc ih =>
    rw [unquoteToBytes, ih (h.part (List.suffix_cons _ _).isInfix)]
    · rfl
    · exact hc

theorem unquote_plain {s : Str} (h : Plain s) : unquote s = s := by
  unfold unquote
  split_ifs with hmem
  · have hrun : ∀ run ∈ s.splitBy fun a b => isAscii a == isAscii b, unquoteRun run = run := by
      intro run hrun
      have hwithin : run <:+: s := by
        have hwithin := List.infix_of_mem_flatten hrun
        rwa [List.flatten_splitBy] at hwithin
      unfold unquoteRun
      split_ifs
      · rw [unquoteToBytes_plain (h.part hwithin), decodeUtf8_encodeUtf8]
      · rfl
    rw [List.flatMap_def, List.map_congr_left hrun, List.map_id', List.flatten_splitBy]
  · rfl

/-! ### Queries -/

theorem unquote_quote (s : Str) : unquote (quote s) = s := by
  by_cases hmem : '%' ∈ quote s
  · rw [unquote_ascii (fun c hc => (quote_plain s c hc).1) hmem, quote, unquoteToBytes_quote, decodeUtf8_encodeUtf8]
  · -- nothing was escaped
    have hplain := plain_of_notMem hmem
    have hbytes : encodeUtf8 (quote s) = encodeUtf8 s := by
      rw [← unquoteToBytes_plain hplain, quote, unquoteToBytes_quote]
    rw [unquote_plain hplain, ← decodeUtf8_encodeUtf8 (quote s), hbytes, decodeUtf8_encodeUtf8]

theorem map_plus {s : Str} (h : ∀ c ∈ s, c ≠ '+') : (s.map fun c => if c = '+' then ' ' else c) = s := by
  refine (List.map_congr_left fun c hc => ?_).trans (List.map_id s)
  exact if_neg (h c hc)

theorem queryValues_quote {name : Str} (hname : ∀ c ∈ name, c ≠ '%' ∧ c ≠ '+' ∧ c ≠ '&' ∧ c ≠ '=') (s : Str) :
    queryValues (name ++ '=' :: quote s) name = [s] := by
  have hamp : '&' ∉ name ++ '=' :: quote s := by
    simp only [List.mem_append, List.mem_cons, not_or]
    exact ⟨fun hc => (hname _ hc).2.2.1 rfl, by decide, fun hc => (quote_plain s _ hc).2.2 rfl⟩
  have hbefore : ∀ c ∈ name, decide (c ≠ '=') = true := fun c hc => decide_eq_true (hname c hc).2.2.2
  have hequals : decide ('=' ≠ '=') = false := rfl
  have hfield : parseField (name ++ '=' :: quote s) = some (name, s) := by
    rw [parseField, if_neg (List.append_ne_nil_of_right_ne_nil _ (List.cons_ne_nil _ _)),
      List.takeWhile_append_of_pos hbefore, List.dropWhile_append_of_pos hbefore, List.takeWhile_cons, List.dropWhile_cons]
    simp only [hequals, if_false, Bool.false_eq_true, List.append_nil, List.drop_succ_cons, List.drop_zero]
    rw [map_plus fun c hc => (hname c hc).2.1, map_plus fun c hc => (quote_plain s c hc).2.1, unquote_quote,
      unquote_plain (plain_of_notMem fun hc => (hname _ hc).1 rfl)]
  rw [queryValues, List.splitOn_eq_singleton hamp, List.filterMap_cons, hfield]
  simp

end Urls
