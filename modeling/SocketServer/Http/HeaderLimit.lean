import SocketServer.Http.BodyReader

/-!
# The limit of header blocks (`read_headers` of `http_file.py`)

`read_headers` compares the limit with the bytes in the buffer, not with the header block, and only when no blank line
is in the buffer. What counts is where it looks: at the bytes already buffered, and then each time `fill` returns, which
is the end of the first read that brings 8192 bytes more. A block of `i` bytes is refused exactly when one of these
places is over the limit and before the end of its blank line, so a long block that comes in one read is accepted, and a
short one of which the blank line is cut is refused.

* `readHeaders_outcome` : the two outcomes, by the places where the loop looks;
* `uniform_iff` : when the limit is that of the block.
-/

namespace SocketServer.Http

open Search

/-! ### Where the loop looks -/

/-- The loop of `readEnds`, with a bound on its rounds. -/
def readEndsLoop : Nat → BodyReader → List Nat
  | 0, _ => []
  | fuel + 1, br =>
    if 0 < br.remaining then
      match br.rfile.read (min CHUNK br.remaining) with
      | ([], _) => []
      | (b :: bs, rfile) =>
        (br.buf.length + (b :: bs).length) ::
          readEndsLoop fuel ⟨rfile, br.remaining - (b :: bs).length, br.buf ++ b :: bs⟩
    else []

/-- How the stream is split: where each of its reads would end, up to the end of the body, counted from the start of the
buffer. -/
def readEnds (br : BodyReader) : List Nat := readEndsLoop br.remaining br

/-- The first of these places at `need` or behind, the first one 8192 behind that, and so on to the last. -/
def looksFrom (need last : Nat) : List Nat → List Nat
  | [] => [last]
  | n :: ends => if n < need then looksFrom need n ends else n :: looksFrom (n + 8192) n ends

/-- Where `read_headers` looks for a blank line, if it has not found one before. -/
def looks (br : BodyReader) : List Nat :=
  br.buf.length :: looksFrom (br.buf.length + 8192) br.buf.length (readEnds br)

/-- The limit is that of the block: one of at most `limit` bytes is returned, a longer one, or one that does not end, is
refused. -/
structure Uniform (limit : Nat) (br : BodyReader) : Prop where
  returned : ∀ i, find (crlf ++ crlf) br.rest = some i → i ≤ limit →
    ∃ br', readHeaders br limit = (.ok (br.rest.take i), br') ∧ br'.rest = br.rest.drop (i + 4)
  refused : ∀ i, find (crlf ++ crlf) br.rest = some i → limit < i →
    ∃ msg br', readHeaders br limit = (.error (.valueError msg), br')
  unended : find (crlf ++ crlf) br.rest = none → ∃ msg br', readHeaders br limit = (.error (.valueError msg), br')

/-! ### The places and `fill` -/

theorem readEndsLoop_congr {fuel fuel' : Nat} {br : BodyReader} (h : br.remaining ≤ fuel)
    (h' : br.remaining ≤ fuel') : readEndsLoop fuel br = readEndsLoop fuel' br := by
  have hzero (br : BodyReader) (k : Nat) (hk : br.remaining = 0) : readEndsLoop k br = [] := by
    cases k with
    | zero => rfl
    | succ k => rw [readEndsLoop, if_neg (by omega)]
  induction fuel generalizing fuel' br with
  | zero => rw [hzero br 0 (by omega), hzero br fuel' (by omega)]
  | succ fuel ih =>
    cases fuel' with
    | zero => rw [hzero br _ (by omega), hzero br 0 (by omega)]
    | succ fuel' =>
      rw [readEndsLoop, readEndsLoop]
      rcases hread : br.rfile.read (min CHUNK br.remaining) with ⟨chunk, rfile⟩
      cases chunk with
      | nil => rfl
      | cons b bs =>
        have hpos : 0 < (b :: bs).length := Nat.succ_pos _
        have hnext : readEndsLoop fuel ⟨rfile, br.remaining - (b :: bs).length, br.buf ++ b :: bs⟩ =
            readEndsLoop fuel' ⟨rfile, br.remaining - (b :: bs).length, br.buf ++ b :: bs⟩ :=
          ih (by dsimp only; omega) (by dsimp only; omega)
        dsimp only
        rw [hnext]

theorem readEnds_of_unread_nil {br : BodyReader} (h : br.unread = []) : readEnds br = [] := by
  rw [readEnds]
  rcases hk : br.remaining with _ | k
  · rfl
  · rw [readEndsLoop, if_pos (by omega)]
    have hdata : br.rfile.data = [] := by
      rw [BodyReader.unread, List.take_eq_nil_iff] at h
      exact h.resolve_left (by omega)
    obtain ⟨hread, -, -⟩ := br.rfile.read_spec (min CHUNK br.remaining)
    rcases hchunk : br.rfile.read (min CHUNK br.remaining) with ⟨chunk, rfile⟩
    rw [hchunk, hdata] at hread
    obtain rfl := (List.append_eq_nil_iff.mp hread).1
    rfl

theorem fillLoop_of_le {need : Nat} {br : BodyReader} (h : need ≤ br.buf.length) (fuel : Nat) :
    fillLoop need fuel br = br := by
  cases fuel with
  | zero => rfl
  | succ fuel => rw [fillLoop, if_neg (by omega)]

/-- **`fill` stops at the next place**, or at the end of the body. -/
theorem looksFrom_fillLoop (need : Nat) {fuel : Nat} {br br' : BodyReader} (hfuel : br.remaining ≤ fuel)
    (hneed : br.buf.length < need) (hbr' : fillLoop need fuel br = br') :
    looksFrom need br.buf.length (readEndsLoop fuel br) =
      if br'.buf.length < need then [br'.buf.length] else looks br' := by
  induction fuel generalizing br with
  | zero =>
    obtain rfl : br = br' := hbr'
    rw [readEndsLoop, looksFrom, if_pos hneed]
  | succ fuel ih =>
    rw [fillLoop] at hbr'
    rw [readEndsLoop]
    by_cases hrem : 0 < br.remaining
    · rw [if_pos ⟨hneed, hrem⟩] at hbr'
      rw [if_pos hrem]
      rcases hread : br.rfile.read (min CHUNK br.remaining) with ⟨chunk, rfile⟩
      rw [hread] at hbr'
      cases chunk with
      | nil =>
        obtain rfl := hbr'
        rw [looksFrom, if_pos hneed]
      | cons b bs =>
        have hpos : 0 < (b :: bs).length := Nat.succ_pos _
        have hlen : (br.buf ++ b :: bs).length = br.buf.length + (b :: bs).length := List.length_append
        have hleft : br.remaining - (b :: bs).length ≤ fuel := by omega
        dsimp only at hbr' ⊢
        rw [looksFrom, ← hlen]
        by_cases hshort : (br.buf ++ b :: bs).length < need
        · rw [if_pos hshort]
          exact ih hleft hshort hbr'
        · rw [fillLoop_of_le (Nat.le_of_not_lt hshort)] at hbr'
          obtain rfl := hbr'
          rw [if_neg hshort, if_neg hshort, looks, readEnds, readEndsLoop_congr hleft le_rfl]
    · rw [if_neg (by omega)] at hbr'
      obtain rfl := hbr'
      rw [if_neg hrem, looksFrom, if_pos hneed]

theorem le_of_mem_looksFrom {n need last : Nat} {ends : List Nat} (hends : ∀ m ∈ ends, last ≤ m)
    (hsorted : ends.Pairwise (· ≤ ·)) (h : n ∈ looksFrom need last ends) : last ≤ n := by
  induction ends generalizing need last with
  | nil =>
    rw [looksFrom, List.mem_singleton] at h
    exact h.ge
  | cons m ends ih =>
    obtain ⟨hm, hrest⟩ := List.pairwise_cons.mp hsorted
    have hlast : last ≤ m := hends m List.mem_cons_self
    rw [looksFrom] at h
    split_ifs at h with hneed
    · exact hlast.trans (ih hm hrest h)
    · rcases List.mem_cons.mp h with rfl | h
      · exact hlast
      · exact hlast.trans (ih hm hrest h)

theorem readEndsLoop_sorted (fuel : Nat) (br : BodyReader) :
    (∀ m ∈ readEndsLoop fuel br, br.buf.length ≤ m) ∧ (readEndsLoop fuel br).Pairwise (· ≤ ·) := by
  induction fuel generalizing br with
  | zero => exact ⟨nofun, List.Pairwise.nil⟩
  | succ fuel ih =>
    rw [readEndsLoop]
    split_ifs with hrem
    · rcases hread : br.rfile.read (min CHUNK br.remaining) with ⟨chunk, rfile⟩
      cases chunk with
      | nil => exact ⟨nofun, List.Pairwise.nil⟩
      | cons b bs =>
        obtain ⟨hle, hsorted⟩ := ih ⟨rfile, br.remaining - (b :: bs).length, br.buf ++ b :: bs⟩
        dsimp only at hle ⊢
        rw [List.length_append] at hle
        refine ⟨fun m hm => ?_, List.pairwise_cons.mpr ⟨hle, hsorted⟩⟩
        rcases List.mem_cons.mp hm with rfl | hm
        · exact Nat.le_add_right ..
        · exact (Nat.le_add_right ..).trans (hle m hm)
    · exact ⟨nofun, List.Pairwise.nil⟩

theorem le_of_mem_looks {br : BodyReader} {n : Nat} (h : n ∈ looks br) : br.buf.length ≤ n := by
  rcases List.mem_cons.mp h with rfl | h
  · exact le_rfl
  · obtain ⟨hle, hsorted⟩ := readEndsLoop_sorted br.remaining br
    exact le_of_mem_looksFrom hle hsorted h

theorem mem_looks_iff {br : BodyReader} {n : Nat} :
    n ∈ looks br ↔ n = br.buf.length ∨ n ∈ looks (fill (br.buf.length + 8192) br) := by
  have hnext := looksFrom_fillLoop (br.buf.length + 8192) le_rfl (by omega) (rfl : _ = fill _ br)
  rw [looks, List.mem_cons, readEnds, hnext]
  split_ifs with hshort
  · -- The body is over, and the loop would look at the same place again.
    obtain ⟨more, hfill⟩ := fill_spec (br.buf.length + 8192) br
    rw [looks, readEnds_of_unread_nil (hfill.done hshort), looksFrom]
    simp only [List.mem_cons, List.not_mem_nil, or_false, or_self]
  · exact Iff.rfl

/-! ### The outcome -/

theorem readHeadersLoop_outcome {limit fuel : Nat} {br : BodyReader} {i : Nat} (hfuel : br.remaining < fuel)
    (hi : find (crlf ++ crlf) br.rest = some i) :
    (∃ n ∈ looks br, limit < n ∧ n < i + 4) ∧
        (∃ msg br', readHeadersLoop limit fuel br = (.error (.valueError msg), br')) ∨
      (∀ n ∈ looks br, limit < n → i + 4 ≤ n) ∧
        ∃ br', readHeadersLoop limit fuel br = (.ok (br.rest.take i), br') ∧ br'.rest = br.rest.drop (i + 4) := by
  have hne : crlf ++ crlf ≠ [] := by decide
  induction fuel generalizing br with
  | zero => exact absurd hfuel (Nat.not_lt_zero _)
  | succ fuel ih =>
    rw [readHeadersLoop]
    rcases hbuf : find (crlf ++ crlf) br.buf with _ | idx
    · have hshort : br.buf.length < i + 4 := by
        by_contra hin
        have hocc := ((find_eq_some_iff _ _ _).mp hi).2.1
        exact not_prefix_of_find_none br.unread hbuf (by rw [show (crlf ++ crlf).length = 4 from rfl]; omega) hocc
      dsimp only
      split_ifs with hlimit hstuck
      · exact .inl ⟨⟨_, List.mem_cons_self, hlimit, hshort⟩, _, _, rfl⟩
      · rw [unread_of_fill_stuck (by omega) hstuck, hbuf] at hi
        cases hi
      · obtain ⟨hgrow, hrem⟩ := remaining_of_fill hstuck
        have hrest := (congrArg (find (crlf ++ crlf)) (fill_rest (br.buf.length + 8192) br)).trans hi
        have hless : (fill (br.buf.length + 8192) br).remaining < fuel := by omega
        have hnext := ih hless hrest
        rw [fill_rest] at hnext
        -- The buffer was within the limit, so the places that count are those of the next round.
        rcases hnext with ⟨⟨n, hn, h⟩, herror⟩ | ⟨hall, hok⟩
        · exact .inl ⟨⟨n, mem_looks_iff.mpr (.inr hn), h⟩, herror⟩
        · refine .inr ⟨fun n hn hover => ?_, hok⟩
          rcases mem_looks_iff.mp hn with rfl | hn
          · exact absurd hover hlimit
          · exact hall n hn hover
    · have hfind : find (crlf ++ crlf) br.rest = some idx := find_append_of_some br.unread hne hbuf
      obtain rfl : idx = i := by
        rw [hfind, Option.some_inj] at hi
        exact hi
      have hin : idx + 4 ≤ br.buf.length := le_of_prefix_drop hne ((find_eq_some_iff _ _ _).mp hbuf).2.1
      refine .inr ⟨fun n hn _ => hin.trans (le_of_mem_looks hn), { br with buf := br.buf.drop (idx + 4) }, ?_, ?_⟩
      · rw [rest_take (by omega)]
      · exact rest_drop hin

/-- **A header block of `i` bytes** is refused when the loop looks over the limit and before the end of the blank line,
and returned otherwise. -/
theorem readHeaders_outcome {br : BodyReader} {i : Nat} (limit : Nat) (hi : find (crlf ++ crlf) br.rest = some i) :
    (∃ n ∈ looks br, limit < n ∧ n < i + 4) ∧
        (∃ msg br', readHeaders br limit = (.error (.valueError msg), br')) ∨
      (∀ n ∈ looks br, limit < n → i + 4 ≤ n) ∧
        ∃ br', readHeaders br limit = (.ok (br.rest.take i), br') ∧ br'.rest = br.rest.drop (i + 4) :=
  readHeadersLoop_outcome (Nat.lt_succ_self _) hi

/-- **The limit of `read_headers`** is that of the header block exactly when the loop looks over the limit and before
the end of the blank line of those blocks only that are over the limit, and of all of them. -/
theorem uniform_iff (limit : Nat) (br : BodyReader) :
    Uniform limit br ↔
      ∀ i, find (crlf ++ crlf) br.rest = some i → ((∃ n ∈ looks br, limit < n ∧ n < i + 4) ↔ limit < i) := by
  constructor
  · intro h i hi
    rcases readHeaders_outcome limit hi with ⟨hlook, msg, br', herror⟩ | ⟨hall, br', hok, -⟩
    · refine iff_of_true hlook (not_le.mp fun hle => ?_)
      obtain ⟨br'', hreturned, -⟩ := h.returned i hi hle
      rw [herror] at hreturned
      cases hreturned
    · refine iff_of_false (fun ⟨n, hn, hover, hbefore⟩ => ?_) fun hlong => ?_
      · have hbehind := hall n hn hover
        omega
      · obtain ⟨msg, br'', hrefused⟩ := h.refused i hi hlong
        rw [hok] at hrefused
        cases hrefused
  · intro h
    refine ⟨fun i hi hle => ?_, fun i hi hlong => ?_, readHeaders_of_not_find⟩
    · rcases readHeaders_outcome limit hi with ⟨hlook, -⟩ | ⟨-, hok⟩
      · have hlong := (h i hi).mp hlook
        omega
      · exact hok
    · rcases readHeaders_outcome limit hi with ⟨-, herror⟩ | ⟨hall, -⟩
      · exact herror
      · obtain ⟨n, hn, hover, hbefore⟩ := (h i hi).mpr hlong
        have hbehind := hall n hn hover
        omega

/-! ### Both ways to fail -/

/-- A header block of `n` bytes. -/
def longBlock (n : Nat) : Bytes := List.replicate n 0x61

theorem find_longBlock (n : Nat) (s : Bytes) : find (crlf ++ crlf) (longBlock n ++ (crlf ++ crlf ++ s)) = some n := by
  have hlen : (longBlock n).length = n := List.length_replicate
  refine (find_eq_some_iff _ _ _).mpr ⟨by rw [List.length_append]; omega, ?_, fun j hj hp => ?_⟩
  · rw [List.drop_left' hlen]
    exact List.prefix_append ..
  · obtain ⟨k, hk⟩ : ∃ k, n - j = k + 1 := ⟨n - j - 1, by omega⟩
    rw [List.drop_append_of_le_length (by omega), longBlock, List.drop_replicate, hk, List.replicate_succ] at hp
    obtain ⟨t, ht⟩ := hp
    have hhead := (List.cons.inj ht).1
    exact absurd hhead (by decide)

/-- A block over the limit, with its blank line in the buffer. -/
def bufferedBlock : BodyReader := ⟨⟨[], []⟩, 0, longBlock 16385 ++ (crlf ++ crlf ++ [])⟩

/-- A block of the limit's length, with half of its blank line in the buffer. -/
def cutBlock : BodyReader := ⟨⟨crlf, []⟩, 2, longBlock 16384 ++ crlf⟩

/-- With the limit of 16384 bytes, a block of 16385 bytes is returned, and one of 16384 bytes refused. -/
theorem not_uniform_blocks : ¬Uniform 16384 bufferedBlock ∧ ¬Uniform 16384 cutBlock := by
  constructor
  · intro h
    have hrest : bufferedBlock.rest = longBlock 16385 ++ (crlf ++ crlf ++ []) := List.append_nil _
    have hi : find (crlf ++ crlf) bufferedBlock.rest = some 16385 := by
      rw [hrest]
      exact find_longBlock 16385 []
    have hlen : bufferedBlock.buf.length = 16389 := by
      change (longBlock 16385 ++ (crlf ++ crlf ++ [])).length = 16389
      rw [List.length_append, longBlock, List.length_replicate]
      rfl
    obtain ⟨msg, br', hrefused⟩ := h.refused 16385 hi (by decide)
    rcases readHeaders_outcome 16384 hi with ⟨⟨n, hn, hover, hbefore⟩, -⟩ | ⟨-, br'', hok, -⟩
    · have hle := le_of_mem_looks hn
      omega
    · rw [hok] at hrefused
      cases hrefused
  · intro h
    have hrest : cutBlock.rest = longBlock 16384 ++ (crlf ++ crlf ++ []) := List.append_assoc ..
    have hi : find (crlf ++ crlf) cutBlock.rest = some 16384 := by
      rw [hrest]
      exact find_longBlock 16384 []
    have hlen : cutBlock.buf.length = 16386 := by
      change (longBlock 16384 ++ crlf).length = 16386
      rw [List.length_append, longBlock, List.length_replicate]
      rfl
    obtain ⟨br', hreturned, -⟩ := h.returned 16384 hi le_rfl
    rcases readHeaders_outcome 16384 hi with ⟨-, msg, br'', herror⟩ | ⟨hall, -⟩
    · rw [herror] at hreturned
      cases hreturned
    · have hbehind := hall _ List.mem_cons_self (by omega)
      omega

end SocketServer.Http
