import Mathlib.Data.List.TakeWhile
import SocketServer.Lib.Text

/-!
# Internet addresses as text

`inet_aton`, `inet_ntoa`, `inet_pton` and `inet_ntop` of the socket library, for addresses in network byte order.

* `inetAton_dottedQuad` : the text of an IPv4 address denotes the address.
-/

namespace Inet

open Bytes

/-! ### Numbers -/

/-- The value of a digit. -/
def digitValue (c : Char) : Option Nat :=
  if '0' ≤ c ∧ c ≤ '9' then some (c.toNat - 48)
  else if 'a' ≤ c ∧ c ≤ 'f' then some (c.toNat - 87)
  else if 'A' ≤ c ∧ c ≤ 'F' then some (c.toNat - 55)
  else none

/-- Digits of a base, behind digits with the value `acc`. -/
def parseBase (base : Nat) : Nat → Str → Option Nat
  | acc, [] => some acc
  | acc, c :: s => do
    let d ← digitValue c
    if d < base then parseBase base (acc * base + d) s else none

/-- A number as C writes it: hexadecimal behind `0x`, octal behind `0`, else decimal. -/
def parseNumber : Str → Option Nat
  | [] => none
  | '0' :: 'x' :: s => if s = [] then none else parseBase 16 0 s
  | '0' :: 'X' :: s => if s = [] then none else parseBase 16 0 s
  | '0' :: s => parseBase 8 0 s
  | s => parseBase 10 0 s

/-! ### IPv4 -/

/-- `isspace` of C. -/
def isSpaceC (c : Char) : Bool := (9 ≤ c.toNat && c.toNat ≤ 13) || c == ' '

/-- `socket.inet_aton`, `none` if it raises: one to four numbers with dots between them, the last of which fills the
bytes that are left. White space ends the text. -/
def inetAton (s : Str) : Option Bytes :=
  match ((s.takeWhile fun c => !isSpaceC c).splitOn '.').mapM parseNumber with
  | some [a] => pack .big 4 a
  | some [a, b] => do some ((← pack .big 1 a) ++ (← pack .big 3 b))
  | some [a, b, c] => do some ((← pack .big 1 a) ++ (← pack .big 1 b) ++ (← pack .big 2 c))
  | some [a, b, c, d] => do
    some ((← pack .big 1 a) ++ (← pack .big 1 b) ++ (← pack .big 1 c) ++ (← pack .big 1 d))
  | _ => none

/-- Four bytes as decimal numbers with dots between them. -/
def dottedQuad (b : Bytes) : Str := ['.'].intercalate (b.map fun x => Nat.toDigits 10 x.toNat)

/-- `socket.inet_ntoa`, `none` if it raises. -/
def inetNtoa (b : Bytes) : Option Str := if b.length = 4 then some (dottedQuad b) else none

/-! ### IPv6 -/

/-- A decimal number below 256 without a leading zero. -/
def parseOctet (s : Str) : Option Nat :=
  if s = [] ∨ (1 < s.length ∧ s.head? = some '0') then none
  else (parseBase 10 0 s).filter (· < 256)

/-- The two groups of a dotted quad. -/
def parseQuad (s : Str) : Option (List Nat) :=
  match (s.splitOn '.').mapM parseOctet with
  | some [a, b, c, d] => some [a * 256 + b, c * 256 + d]
  | _ => none

/-- A group: one to four hexadecimal digits. -/
def parseGroup (s : Str) : Option Nat := if s = [] ∨ 4 < s.length then none else parseBase 16 0 s

/-- Groups with colons between them; with `last`, the last one may be a dotted quad. -/
def parseGroups (last : Bool) : List Str → Option (List Nat)
  | [] => some []
  | [s] =>
    if last && s.contains '.' then parseQuad s else (parseGroup s).map fun n => [n]
  | s :: rest => do
    let n ← parseGroup s
    let ns ← parseGroups last rest
    some (n :: ns)

/-- The text before and behind the first `::`. -/
def splitGap : Str → Option (Str × Str)
  | ':' :: ':' :: s => some ([], s)
  | c :: s => (splitGap s).map fun p => (c :: p.1, p.2)
  | [] => none

/-- Groups as bytes. -/
def groupBytes (gs : List Nat) : Bytes := gs.flatMap (encode .big 2)

/-- `socket.inet_pton(socket.AF_INET, s)`, `none` if it raises. -/
def inetPton4 (s : Str) : Option Bytes := (parseQuad s).map groupBytes

/-- `socket.inet_pton(socket.AF_INET6, s)`, `none` if it raises. -/
def inetPton6 (s : Str) : Option Bytes :=
  match splitGap s with
  | none => do
    let gs ← parseGroups true (s.splitOn ':')
    if gs.length = 8 then some (groupBytes gs) else none
  | some (l, r) => do
    let gs ← if l = [] then some [] else parseGroups false (l.splitOn ':')
    let hs ← if r = [] then some [] else parseGroups true (r.splitOn ':')
    if gs.length + hs.length ≤ 7 then
      some (groupBytes (gs ++ List.replicate (8 - gs.length - hs.length) 0 ++ hs))
    else none

/-- The groups of an address. -/
def groups : Bytes → List Nat
  | a :: b :: s => decode .big [a, b] :: groups s
  | _ => []

/-- The number of zero groups from `i` on. -/
def zerosAt (gs : List Nat) (i : Nat) : Nat := ((gs.drop i).takeWhile (· == 0)).length

/-- The first of the longest runs of zero groups: where it begins, and its length. -/
def zeroRun (gs : List Nat) : Nat × Nat :=
  (List.range gs.length).foldl (fun best i => if best.2 < zerosAt gs i then (i, zerosAt gs i) else best) (0, 0)

/-- Groups in hexadecimal with colons between them. -/
def joinGroups (gs : List Nat) : Str := [':'].intercalate (gs.map (Nat.toDigits 16))

/-- `socket.inet_ntop(socket.AF_INET6, b)`, `none` if it raises. -/
def inetNtop6 (b : Bytes) : Option Str :=
  if b.length ≠ 16 then none
  else
    let gs := groups b
    let (base, len) := zeroRun gs
    if len < 2 then some (joinGroups gs)
    else if base = 0 ∧ len = 6 then some ([':', ':'] ++ dottedQuad (b.drop 12))
    else if base = 0 ∧ len = 5 ∧ gs.getD 5 0 = 0xffff then
      some ([':', ':', 'f', 'f', 'f', 'f', ':'] ++ dottedQuad (b.drop 12))
    else some (joinGroups (gs.take base) ++ [':', ':'] ++ joinGroups (gs.drop (base + len)))

/-! ### The text of an IPv4 address -/

theorem toDigits_byte : ∀ n < 256, parseNumber (Nat.toDigits 10 n) = some n ∧ '.' ∉ Nat.toDigits 10 n ∧
    ∀ c ∈ Nat.toDigits 10 n, isSpaceC c = false := by
  have hall : (List.range 256).all (fun n => parseNumber (Nat.toDigits 10 n) == some n &&
      (Nat.toDigits 10 n).all fun c => c != '.' && !isSpaceC c) = true := by
    decide +kernel
  intro n hn
  have hdigits := List.all_eq_true.mp hall n (List.mem_range.mpr hn)
  simp only [Bool.and_eq_true, beq_iff_eq, List.all_eq_true, bne_iff_ne, Bool.not_eq_true'] at hdigits
  exact ⟨hdigits.1, fun hdot => (hdigits.2 _ hdot).1 rfl, fun c hc => (hdigits.2 c hc).2⟩

theorem mem_dottedQuad {b : Bytes} {c : Char} (h : c ∈ dottedQuad b) :
    c = '.' ∨ ∃ x ∈ b, c ∈ Nat.toDigits 10 x.toNat := by
  induction b with
  | nil => simp [dottedQuad, List.intercalate] at h
  | cons x b ih =>
    cases b with
    | nil => exact .inr ⟨x, List.mem_singleton_self x, by simpa [dottedQuad, List.intercalate] using h⟩
    | cons y b =>
      have h' : c ∈ Nat.toDigits 10 x.toNat ∨ c = '.' ∨ c ∈ dottedQuad (y :: b) := by
        simpa [dottedQuad, List.intercalate] using h
      rcases h' with h' | h' | h'
      · exact .inr ⟨x, List.mem_cons_self, h'⟩
      · exact .inl h'
      · rcases ih h' with h' | ⟨z, hz, hc⟩
        · exact .inl h'
        · exact .inr ⟨z, List.mem_cons_of_mem x hz, hc⟩

theorem isSpaceC_dottedQuad {b : Bytes} {c : Char} (h : c ∈ dottedQuad b) : isSpaceC c = false := by
  rcases mem_dottedQuad h with rfl | ⟨x, _, hx⟩
  · rfl
  · exact (toDigits_byte x.toNat x.toNat_lt).2.2 c hx

theorem splitOn_dottedQuad {b : Bytes} (hb : b ≠ []) :
    (dottedQuad b).splitOn '.' = b.map fun x => Nat.toDigits 10 x.toNat := by
  refine List.splitOn_intercalate '.' ?_ (by simpa using hb)
  intro l hl
  obtain ⟨x, _, rfl⟩ := List.mem_map.mp hl
  exact (toDigits_byte x.toNat x.toNat_lt).2.1

theorem mapM_parseNumber (b : Bytes) :
    (b.map fun x => Nat.toDigits 10 x.toNat).mapM parseNumber = some (b.map UInt8.toNat) := by
  induction b with
  | nil => rfl
  | cons x b ih =>
    rw [List.map_cons, List.mapM_cons, (toDigits_byte x.toNat x.toNat_lt).1, ih]
    rfl

/-- **The text of an IPv4 address denotes the address.** -/
theorem inetAton_dottedQuad {b : Bytes} (hb : b.length = 4) : inetAton (dottedQuad b) = some b := by
  have hne : b ≠ [] := List.ne_nil_of_length_pos (by omega)
  have hspace : (dottedQuad b).takeWhile (fun c => !isSpaceC c) = dottedQuad b :=
    List.takeWhile_eq_self_iff.mpr fun c hc => by rw [isSpaceC_dottedQuad hc]; rfl
  have hbyte (x : UInt8) : pack .big 1 x.toNat = some [x] := by
    have hx : encode .big 1 x.toNat = [x] := encode_decode .big [x]
    rw [pack_of_lt x.toNat_lt, hx]
  match b, hb with
  | [w, x, y, z], _ =>
    rw [inetAton, hspace, splitOn_dottedQuad hne, mapM_parseNumber]
    simp only [List.map_cons, List.map_nil, hbyte]
    rfl

theorem inetAton_length {s : Str} {b : Bytes} (h : inetAton s = some b) : b.length = 4 := by
  rw [inetAton] at h
  split at h
  · exact length_of_pack h
  all_goals
    simp only [Option.bind_eq_bind, Option.bind_eq_some_iff, Option.some.injEq, reduceCtorEq] at h
  · obtain ⟨x, hx, y, hy, rfl⟩ := h
    simp only [List.length_append, length_of_pack hx, length_of_pack hy]
  · obtain ⟨x, hx, y, hy, z, hz, rfl⟩ := h
    simp only [List.length_append, length_of_pack hx, length_of_pack hy, length_of_pack hz]
  · obtain ⟨w, hw, x, hx, y, hy, z, hz, rfl⟩ := h
    simp only [List.length_append, length_of_pack hw, length_of_pack hx, length_of_pack hy, length_of_pack hz]

/-- An IPv6 address of zeros around a one, and a mapped IPv4 address. -/
example : inetNtop6 ([0x20, 1] ++ List.replicate 13 0 ++ [1]) = some ['2', '0', '0', '1', ':', ':', '1'] := by
  decide +kernel

example : (inetNtop6 (List.replicate 10 0 ++ [0xff, 0xff, 10, 0, 0, 1])).bind inetPton6 =
    some (List.replicate 10 0 ++ [0xff, 0xff, 10, 0, 0, 1]) := by decide +kernel

end Inet
