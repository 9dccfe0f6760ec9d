import SocketServer.Lib.Bytes
import SocketServer.Lib.Search

/-!
# The streaming body reader (`_BodyReader` of `http_file.py`)

`RFile` is the read side of the connection: the bytes still to come before the end of the stream, and how
many of them each of the next reads returns. Whatever the cuts, a read of `n > 0` bytes returns between `1`
and `n` bytes, and none only at the end of the stream (`read_spec`).

`rest br` is what the reader may still hand out: its buffer and the part of the stream inside the declared
length. Each method is described by what it does to `rest` alone, so no statement below mentions how the
stream is cut:

* `fill_spec` : `fill` moves bytes from the stream to the buffer and leaves `rest` as it is;
* `readHeaders_of_find` : a header block is cut off at the first blank line of `rest`, or refused over the limit.

`StreamValue` continues with `stream_value`.
-/

namespace SocketServer.Http

open Search

/-- What the parsing code raises. `outOfFuel` is not raised by the program: it marks a loop of the model
that was given too few rounds, which the lemmas about the loops show never happens. -/
inductive ParseError
  | valueError (msg : String)
  | osError (msg : String)
  | outOfFuel
  deriving DecidableEq, Repr

/-- `\r\n`. -/
def crlf : Bytes := [0x0D, 0x0A]

/-- `--`. -/
def dashes : Bytes := [0x2D, 0x2D]

/-! ### The connection -/

/-- The read side of a connection: the bytes before the end of the stream, and how many each of the next
reads would like to return (past the list: as many as asked). -/
structure RFile where
  data : Bytes
  cuts : List Nat
  deriving DecidableEq, Repr

/-- `rfile.read(n)`. -/
def RFile.read (n : Nat) (rf : RFile) : Bytes × RFile :=
  match rf.cuts with
  | [] => (rf.data.take n, ⟨rf.data.drop n, []⟩)
  | c :: cuts => (rf.data.take (min n (max 1 c)), ⟨rf.data.drop (min n (max 1 c)), cuts⟩)

theorem RFile.read_spec (n : Nat) (rf : RFile) :
    (rf.read n).1 ++ (rf.read n).2.data = rf.data ∧ (rf.read n).1.length ≤ n ∧
      (0 < n → (rf.read n).1 = [] → rf.data = []) := by
  obtain ⟨data, cuts⟩ := rf
  have htake : ∀ k, 0 < k → data.take k = [] → data = [] := by
    intro k hk h
    rcases List.take_eq_nil_iff.mp h with h | h
    · omega
    · exact h
  cases cuts with
  | nil =>
    refine ⟨List.take_append_drop n data, ?_, fun hn => htake n hn⟩
    exact List.length_take_le n data
  | cons c cuts =>
    refine ⟨List.take_append_drop _ data, ?_, fun hn => htake _ (by omega)⟩
    exact le_trans (List.length_take_le _ data) (min_le_left _ _)

/-! ### The reader -/

/-- `_BodyReader`: `remaining` bytes of the declared length are still unread. -/
structure BodyReader where
  rfile : RFile
  remaining : Nat
  buf : Bytes
  deriving DecidableEq, Repr

/-- `_BodyReader.CHUNK`. -/
def CHUNK : Nat := 256 * 1024

/-- `_BodyReader(rfile, length)`. -/
def BodyReader.init (rfile : RFile) (length : Nat) : BodyReader := ⟨rfile, length, []⟩

/-- The stream inside the declared length. -/
def BodyReader.unread (br : BodyReader) : Bytes := br.rfile.data.take br.remaining

def BodyReader.rest (br : BodyReader) : Bytes := br.buf ++ br.unread

/-- The loop of `fill`, with a bound on its rounds. -/
def fillLoop (need : Nat) : Nat → BodyReader → BodyReader
  | 0, br => br
  | fuel + 1, br =>
    if br.buf.length < need ∧ 0 < br.remaining then
      match br.rfile.read (min CHUNK br.remaining) with
      | ([], rfile) => ⟨rfile, 0, br.buf⟩
      | (b :: bs, rfile) =>
        fillLoop need fuel ⟨rfile, br.remaining - (b :: bs).length, br.buf ++ b :: bs⟩
    else br

/-- `fill(need)`: every round reads at least one byte, so `remaining` rounds are enough. -/
def fill (need : Nat) (br : BodyReader) : BodyReader := fillLoop need br.remaining br

/-- What `fill` may do to a reader: move `more` from the stream to the buffer. -/
structure Filled (need : Nat) (br br' : BodyReader) (more : Bytes) : Prop where
  buf : br'.buf = br.buf ++ more
  unread : br.unread = more ++ br'.unread
  remaining : br'.remaining + more.length ≤ br.remaining
  done : br'.buf.length < need → br'.unread = []

theorem fillLoop_spec (need fuel : Nat) (br : BodyReader) (hfuel : br.remaining ≤ fuel) :
    ∃ more, Filled need br (fillLoop need fuel br) more := by
  induction fuel generalizing br with
  | zero =>
    refine ⟨[], (List.append_nil _).symm, rfl, le_rfl, fun _ => ?_⟩
    rw [fillLoop, BodyReader.unread, Nat.le_zero.mp hfuel, List.take_zero]
  | succ fuel ih =>
    rw [fillLoop]
    split_ifs with hmore
    · obtain ⟨hdata, hle, hend⟩ := br.rfile.read_spec (min CHUNK br.remaining)
      rcases hread : br.rfile.read (min CHUNK br.remaining) with ⟨chunk, rfile⟩
      rw [hread] at hdata hle hend
      cases chunk with
      | nil =>
        have hempty : br.rfile.data = [] := hend (lt_min (by decide) hmore.2) rfl
        refine ⟨[], (List.append_nil _).symm, ?_, Nat.zero_le _, fun _ => ?_⟩
        · simp only [BodyReader.unread, hempty, List.take_nil, List.take_zero, List.append_nil]
        · simp only [BodyReader.unread, List.take_zero]
      | cons b bs =>
        have hpos : 0 < (b :: bs).length := Nat.succ_pos _
        have hrem : (b :: bs).length ≤ br.remaining := le_trans hle (min_le_right _ _)
        obtain ⟨more, hbuf, hunread, hremaining, hdone⟩ :=
          ih ⟨rfile, br.remaining - (b :: bs).length, br.buf ++ b :: bs⟩ (by dsimp only; omega)
        dsimp only at hdata hbuf hunread hremaining ⊢
        refine ⟨b :: bs ++ more, ?_, ?_, ?_, hdone⟩
        · rw [hbuf, List.append_assoc]
        · rw [List.append_assoc, ← hunread, BodyReader.unread, BodyReader.unread, ← hdata,
            List.take_append, List.take_of_length_le hrem]
        · rw [List.length_append]
          omega
    · refine ⟨[], (List.append_nil _).symm, rfl, le_rfl, fun hlt => ?_⟩
      have hzero : br.remaining = 0 := by omega
      rw [BodyReader.unread, hzero, List.take_zero]

/-- **`fill`** moves bytes from the stream to the buffer, until `need` are there or the body ends. -/
theorem fill_spec (need : Nat) (br : BodyReader) : ∃ more, Filled need br (fill need br) more :=
  fillLoop_spec need br.remaining br le_rfl

@[simp] theorem fill_rest (need : Nat) (br : BodyReader) : (fill need br).rest = br.rest := by
  obtain ⟨more, h⟩ := fill_spec need br
  rw [BodyReader.rest, BodyReader.rest, h.buf, h.unread, List.append_assoc]

theorem fill_buf_of_lt (need : Nat) (br : BodyReader) (h : (fill need br).buf.length < need) :
    (fill need br).buf = br.rest := by
  obtain ⟨more, hfill⟩ := fill_spec need br
  rw [← fill_rest need br, BodyReader.rest, hfill.done h, List.append_nil]

theorem fill_buf_take (need : Nat) (br : BodyReader) :
    (fill need br).buf.take need = br.rest.take need := by
  rcases lt_or_ge (fill need br).buf.length need with h | h
  · rw [fill_buf_of_lt need br h]
  · rw [← fill_rest need br, BodyReader.rest, List.take_append_of_le_length h]

theorem prefix_fill {n : Nat} {p : Bytes} (br : BodyReader) (hp : p.length ≤ n) :
    p <+: (fill n br).buf ↔ p <+: br.rest := by
  have htake := congrArg (List.take p.length) (fill_buf_take n br)
  rw [List.take_take, List.take_take, min_eq_left hp] at htake
  rw [List.prefix_iff_eq_take, List.prefix_iff_eq_take, htake]

/-- `take(n)`. -/
def BodyReader.take (n : Nat) (br : BodyReader) : Bytes × BodyReader :=
  (br.buf.take n, { br with buf := br.buf.drop n })

theorem rest_take {br : BodyReader} {k : Nat} (hk : k ≤ br.buf.length) : br.rest.take k = br.buf.take k := by
  rw [BodyReader.rest, List.take_append_of_le_length hk]

theorem rest_drop {br : BodyReader} {k : Nat} (hk : k ≤ br.buf.length) :
    ({ br with buf := br.buf.drop k } : BodyReader).rest = br.rest.drop k := by
  simp only [BodyReader.rest, BodyReader.unread]
  rw [List.drop_append_of_le_length hk]

theorem rest_take_prefix {need k : Nat} {p : Bytes} (br : BodyReader) (hp : p <+: (fill need br).buf)
    (hk : k ≤ p.length) : ((fill need br).take k).2.rest = br.rest.drop k :=
  (rest_drop (hk.trans hp.length_le)).trans (congrArg (List.drop k) (fill_rest need br))

theorem buf_length_le_rest (br : BodyReader) : br.buf.length ≤ br.rest.length := by
  rw [BodyReader.rest, List.length_append]
  exact Nat.le_add_right _ _

/-! ### Header blocks -/

/-- The loop of `read_headers`, with a bound on its rounds. -/
def readHeadersLoop (limit : Nat) : Nat → BodyReader → Except ParseError Bytes × BodyReader
  | 0, br => (.error .outOfFuel, br)
  | fuel + 1, br =>
    match find (crlf ++ crlf) br.buf with
    | some idx => (.ok (br.buf.take idx), { br with buf := br.buf.drop (idx + 4) })
    | none =>
      if limit < br.buf.length then (.error (.valueError "multipart part headers too large"), br)
      else
        let br' := fill (br.buf.length + 8192) br
        if br'.buf.length = br.buf.length then
          (.error (.valueError "multipart body truncated(headers)"), br')
        else readHeadersLoop limit fuel br'

/-- `read_headers(limit)`. -/
def readHeaders (br : BodyReader) (limit : Nat) : Except ParseError Bytes × BodyReader :=
  readHeadersLoop limit (br.remaining + 1) br

theorem unread_of_fill_stuck {need : Nat} {br : BodyReader} (hneed : br.buf.length < need)
    (h : (fill need br).buf.length = br.buf.length) : br.rest = br.buf := by
  rw [← fill_buf_of_lt need br (by omega)]
  obtain ⟨more, hfill⟩ := fill_spec need br
  rw [hfill.buf, List.length_append] at h
  rw [hfill.buf, List.eq_nil_of_length_eq_zero (by omega : more.length = 0), List.append_nil]

theorem remaining_of_fill {need : Nat} {br : BodyReader}
    (h : (fill need br).buf.length ≠ br.buf.length) :
    br.buf.length < (fill need br).buf.length ∧
      (fill need br).remaining + (fill need br).buf.length ≤ br.remaining + br.buf.length := by
  obtain ⟨more, hfill⟩ := fill_spec need br
  have hremaining := hfill.remaining
  rw [hfill.buf, List.length_append] at h ⊢
  omega

theorem readHeadersLoop_spec (limit fuel : Nat) (br : BodyReader) (hfuel : br.remaining < fuel) :
    (∀ i, find (crlf ++ crlf) br.rest = some i →
      (∃ br', readHeadersLoop limit fuel br = (.ok (br.rest.take i), br') ∧ br'.rest = br.rest.drop (i + 4)) ∨
      (limit < i + 3 ∧ ∃ msg br', readHeadersLoop limit fuel br = (.error (.valueError msg), br'))) ∧
    (find (crlf ++ crlf) br.rest = none →
      ∃ msg br', readHeadersLoop limit fuel br = (.error (.valueError msg), br')) := by
  induction fuel generalizing br with
  | zero => exact absurd hfuel (Nat.not_lt_zero _)
  | succ fuel ih =>
    have hne : crlf ++ crlf ≠ [] := by decide
    rw [readHeadersLoop]
    rcases hbuf : find (crlf ++ crlf) br.buf with _ | idx
    · -- the blank line is not in the buffer: either it never comes, or the buffer is short of it
      have hshort : ∀ i, find (crlf ++ crlf) br.rest = some i → br.buf.length < i + 4 := by
        intro i hi
        by_contra hin
        have hocc := ((find_eq_some_iff _ _ _).mp hi).2.1
        exact not_prefix_of_find_none br.unread hbuf (by rw [show (crlf ++ crlf).length = 4 from rfl]; omega) hocc
      dsimp only
      split_ifs with hlimit hstuck
      · refine ⟨fun i hi => Or.inr ⟨?_, _, _, rfl⟩, fun _ => ⟨_, _, rfl⟩⟩
        have := hshort i hi
        omega
      · have hrest := unread_of_fill_stuck (by omega) hstuck
        refine ⟨fun i hi => ?_, fun _ => ⟨_, _, rfl⟩⟩
        rw [hrest, hbuf] at hi
        cases hi
      · obtain ⟨hgrow, hrem⟩ := remaining_of_fill hstuck
        have h := ih (fill (br.buf.length + 8192) br) (by omega)
        rwa [fill_rest] at h
    · have hfind : find (crlf ++ crlf) br.rest = some idx := find_append_of_some br.unread hne hbuf
      have hin : idx + 4 ≤ br.buf.length :=
        le_of_prefix_drop hne ((find_eq_some_iff _ _ _).mp hbuf).2.1
      refine ⟨fun i hi => Or.inl ?_, fun hnone => ?_⟩
      · rw [hfind, Option.some_inj] at hi
        subst hi
        refine ⟨{ br with buf := br.buf.drop (idx + 4) }, ?_, rest_drop hin⟩
        rw [rest_take (by omega)]
      · rw [hfind] at hnone
        cases hnone

/-- **A header block** ends at the first blank line of the body; it is refused at most if it is over the limit. -/
theorem readHeaders_of_find {br : BodyReader} {i : Nat} (limit : Nat) (h : find (crlf ++ crlf) br.rest = some i) :
    (∃ br', readHeaders br limit = (.ok (br.rest.take i), br') ∧ br'.rest = br.rest.drop (i + 4)) ∨
    (limit < i + 3 ∧ ∃ msg br', readHeaders br limit = (.error (.valueError msg), br')) :=
  (readHeadersLoop_spec limit _ br (Nat.lt_succ_self _)).1 i h

theorem readHeaders_of_not_find {br : BodyReader} {n : Nat} (h : find (crlf ++ crlf) br.rest = none) :
    ∃ msg br', readHeaders br n = (.error (.valueError msg), br') :=
  (readHeadersLoop_spec n _ br (Nat.lt_succ_self _)).2 h

end SocketServer.Http
