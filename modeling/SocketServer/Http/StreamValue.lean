import SocketServer.Http.BodyReader

/-!
# Reading a field value (`_BodyReader.stream_value`)

A value ends at the first delimiter line: an occurrence of `\r\n--boundary` followed by `--`, `\r\n` or
`\n` (`DelimiterLine`). The method reads in rounds. A round looks for the first delimiter of the buffer
(`scan`); if it decides nothing, all but the last `len(delim) + 1` bytes go to the sink and more is read.

`streamValue_spec` says that the cuts do not matter: the sink receives the bytes of `rest` before its first
delimiter line, in order and in some pieces, and the reader is left behind the delimiter; without a
delimiter line it raises. The argument is one lemma about each round. A round sets aside a prefix of `rest`
in which no delimiter line starts (`Streamed.cons`), because the delimiter does not overlap itself
(`delimiters_apart`) and `len(delim) + 1` bytes hold every delimiter that is not decided yet
(`scan_undecided`); or it stops, with the first delimiter line in the buffer (`scan_line`) or the stream at
its end.
-/

namespace SocketServer.Http

open Search

/-! ### Delimiter lines -/

/-- The bytes behind a delimiter make it a delimiter line: `--`, `\r\n` or `\n` comes first. -/
def EndsLine (tail : Bytes) : Prop :=
  tail.take 2 = dashes ∨ tail.take 2 = crlf ∨ tail.take 1 = [0x0A]

instance : DecidablePred EndsLine := fun tail =>
  inferInstanceAs (Decidable (tail.take 2 = dashes ∨ tail.take 2 = crlf ∨ tail.take 1 = [0x0A]))

def delimiter (boundary : Bytes) : Bytes := crlf ++ dashes ++ boundary

/-- A delimiter line starts here: the delimiter, and behind it the end of its line. -/
def DelimiterLine (delim s : Bytes) : Prop := delim <+: s ∧ EndsLine (s.drop delim.length)

instance (delim : Bytes) : DecidablePred (DelimiterLine delim) := fun s =>
  inferInstanceAs (Decidable (delim <+: s ∧ EndsLine (s.drop delim.length)))

theorem endsLine_append {tail : Bytes} (more : Bytes) (h : EndsLine tail) : EndsLine (tail ++ more) := by
  have htake : ∀ n (line : Bytes), line.length = n → tail.take n = line → (tail ++ more).take n = line := by
    intro n line hlen heq
    have hn : n ≤ tail.length := by
      rw [← hlen, ← heq, List.length_take]
      exact min_le_right _ _
    rw [List.take_append_of_le_length hn, heq]
  rcases h with h | h | h
  · exact Or.inl (htake 2 _ rfl h)
  · exact Or.inr (Or.inl (htake 2 _ rfl h))
  · exact Or.inr (Or.inr (htake 1 _ rfl h))

theorem endsLine_append_iff {tail : Bytes} (more : Bytes) (h : 2 ≤ tail.length) :
    EndsLine (tail ++ more) ↔ EndsLine tail := by
  rw [EndsLine, EndsLine, List.take_append_of_le_length h, List.take_append_of_le_length (by omega)]

theorem endsLine_take_two (tail : Bytes) : EndsLine (tail.take 2) ↔ EndsLine tail := by
  rw [EndsLine, EndsLine, List.take_take, List.take_take]
  rfl

theorem length_delimiter (boundary : Bytes) : (delimiter boundary).length = boundary.length + 4 := by
  rw [delimiter, List.length_append, Nat.add_comm]
  rfl

theorem four_le_delimiter (boundary : Bytes) : 4 ≤ (delimiter boundary).length := by
  rw [length_delimiter]
  exact Nat.le_add_left 4 _

theorem delimiter_ne_nil (boundary : Bytes) : delimiter boundary ≠ [] :=
  List.ne_nil_of_length_pos (lt_of_lt_of_le (by decide) (four_le_delimiter boundary))

/-- Without a CR in the boundary, two occurrences of the delimiter do not overlap. -/
theorem delimiters_apart {boundary s : Bytes} {i j : Nat} (hcr : 0x0D ∉ boundary)
    (hi : delimiter boundary <+: s.drop i) (hj : delimiter boundary <+: s.drop j) (hij : i < j) :
    i + (delimiter boundary).length ≤ j := by
  have htail : (0x0D : UInt8) ∉ (0x0A : UInt8) :: dashes ++ boundary := by
    simp only [dashes, List.cons_append, List.nil_append, List.mem_cons, not_or]
    exact ⟨by decide, by decide, by decide, hcr⟩
  exact occurrences_apart htail hi hj hij

/-! ### Field values -/

/-- What a round of `stream_value` finds at the first delimiter of its buffer: a delimiter line, content
that only looks like one, or nothing that can be decided yet. -/
inductive Scan
  | line (idx : Nat)
  | content (idx : Nat)
  | undecided

/-- The first half of a round. -/
def scan (delim buf : Bytes) : Scan :=
  match find delim buf with
  | some idx =>
    if EndsLine (Bytes.slice buf (idx + delim.length) (idx + delim.length + 2)) then .line idx
    else if idx + delim.length + 2 < buf.length then .content idx
    else .undecided
  | none => .undecided

variable {τ : Type}

/-- A sink takes the pieces of a value one by one; it may raise, and its state stays as it then is. -/
abbrev Sink (τ : Type) := Bytes → τ → Except ParseError Unit × τ

/-- The second half of a round: all but the last `keep` bytes of the buffer go to the sink. -/
def flushTail (keep : Nat) (sink : Sink τ) (br : BodyReader) (t : τ) : Except ParseError Unit × BodyReader × τ :=
  if keep < br.buf.length then
    match sink (br.buf.take (br.buf.length - keep)) t with
    | (.ok (), t) => (.ok (), { br with buf := br.buf.drop (br.buf.length - keep) }, t)
    | (.error e, t) => (.error e, br, t)
  else (.ok (), br, t)

/-- The loop of `stream_value`, with a bound on its rounds. -/
def streamValueLoop (delim : Bytes) (sink : Sink τ) :
    Nat → BodyReader → τ → Except ParseError Unit × BodyReader × τ
  | 0, br, t => (.error .outOfFuel, br, t)
  | fuel + 1, br, t =>
    match scan delim br.buf with
    | .line idx =>
      match sink (br.buf.take idx) t with
      | (.ok (), t) => (.ok (), { br with buf := br.buf.drop (idx + delim.length) }, t)
      | (.error e, t) => (.error e, br, t)
    | .content idx =>
      match sink (br.buf.take (idx + delim.length)) t with
      | (.ok (), t) =>
        streamValueLoop delim sink fuel { br with buf := br.buf.drop (idx + delim.length) } t
      | (.error e, t) => (.error e, br, t)
    | .undecided =>
      match flushTail (delim.length + 1) sink br t with
      | (.ok (), br, t) =>
        let br' := fill (br.buf.length + CHUNK) br
        if br'.buf.length = br.buf.length then
          (.error (.valueError "multipart body truncated(value)"), br', t)
        else streamValueLoop delim sink fuel br' t
      | (.error e, br, t) => (.error e, br, t)

/-- `stream_value(delim, sink)`. -/
def streamValue (delim : Bytes) (sink : Sink τ) (br : BodyReader) (t : τ) :
    Except ParseError Unit × BodyReader × τ :=
  streamValueLoop delim sink (br.buf.length + 2 * br.remaining + 1) br t


/-! ### One round -/

section scan

variable {boundary buf : Bytes} {idx : Nat}

theorem not_line_of_first {s : Bytes} (hcr : 0x0D ∉ boundary) (hfind : find (delimiter boundary) s = some idx)
    (hend : ¬ EndsLine (s.drop (idx + (delimiter boundary).length))) :
    ∀ j < idx + (delimiter boundary).length, ¬ DelimiterLine (delimiter boundary) (s.drop j) := by
  intro j hj hd
  obtain ⟨-, hocc, hfirst⟩ := (find_eq_some_iff _ _ _).mp hfind
  rcases lt_trichotomy j idx with hlt | rfl | hgt
  · exact hfirst j hlt hd.1
  · have hline := hd.2
    rw [List.drop_drop] at hline
    exact hend hline
  · have := delimiters_apart hcr hocc hd.1 hgt
    omega

theorem scan_eq_line (h : scan (delimiter boundary) buf = .line idx) :
    find (delimiter boundary) buf = some idx ∧ EndsLine (buf.drop (idx + (delimiter boundary).length)) := by
  rw [scan] at h
  rcases hfind : find (delimiter boundary) buf with _ | i
  · simp [hfind] at h
  · rw [hfind] at h
    dsimp only at h
    split_ifs at h with hline
    cases h
    rw [Bytes.slice, Nat.add_sub_cancel_left, endsLine_take_two] at hline
    exact ⟨rfl, hline⟩

theorem scan_eq_content (h : scan (delimiter boundary) buf = .content idx) :
    find (delimiter boundary) buf = some idx ∧ ¬ EndsLine (buf.drop (idx + (delimiter boundary).length)) ∧
      idx + (delimiter boundary).length + 2 < buf.length := by
  rw [scan] at h
  rcases hfind : find (delimiter boundary) buf with _ | i
  · simp [hfind] at h
  · rw [hfind] at h
    dsimp only at h
    split_ifs at h with hline hlong
    cases h
    rw [Bytes.slice, Nat.add_sub_cancel_left, endsLine_take_two] at hline
    exact ⟨rfl, hline, hlong⟩

theorem scan_eq_undecided (h : scan (delimiter boundary) buf = .undecided) :
    find (delimiter boundary) buf = none ∨ ∃ i, find (delimiter boundary) buf = some i ∧
      ¬ EndsLine (buf.drop (i + (delimiter boundary).length)) ∧
      buf.length ≤ i + (delimiter boundary).length + 2 := by
  rw [scan] at h
  rcases hfind : find (delimiter boundary) buf with _ | i
  · exact Or.inl rfl
  · rw [hfind] at h
    dsimp only at h
    split_ifs at h with hline hlong
    rw [Bytes.slice, Nat.add_sub_cancel_left, endsLine_take_two] at hline
    exact Or.inr ⟨i, rfl, hline, by omega⟩

variable (more : Bytes)

theorem scan_line (h : scan (delimiter boundary) buf = .line idx) :
    idx + (delimiter boundary).length ≤ buf.length ∧
      firstSuffix (DelimiterLine (delimiter boundary)) (buf ++ more) = some idx := by
  obtain ⟨hfind, hline⟩ := scan_eq_line h
  have hin := le_of_prefix_drop (delimiter_ne_nil boundary) ((find_eq_some_iff _ _ _).mp hfind).2.1
  obtain ⟨hle, hocc, hfirst⟩ :=
    (find_eq_some_iff _ _ _).mp (find_append_of_some more (delimiter_ne_nil boundary) hfind)
  refine ⟨hin, (firstSuffix_eq_some_iff _ _ _).mpr ⟨hle, ⟨hocc, ?_⟩, fun j hj hd => hfirst j hj hd.1⟩⟩
  rw [List.drop_drop, List.drop_append_of_le_length hin]
  exact endsLine_append more hline

/-- Content that looks like a delimiter hides no delimiter line. -/
theorem scan_content (hcr : 0x0D ∉ boundary) (h : scan (delimiter boundary) buf = .content idx) :
    idx + (delimiter boundary).length ≤ buf.length ∧
      ∀ j < idx + (delimiter boundary).length,
        ¬ DelimiterLine (delimiter boundary) ((buf ++ more).drop j) := by
  obtain ⟨hfind, hline, hlong⟩ := scan_eq_content h
  refine ⟨by omega, not_line_of_first hcr (find_append_of_some more (delimiter_ne_nil boundary) hfind) ?_⟩
  rwa [List.drop_append_of_le_length (by omega), endsLine_append_iff more (by rw [List.length_drop]; omega)]

/-- While nothing is decided, no delimiter line starts before the last `len(delim) + 1` bytes. -/
theorem scan_undecided (h : scan (delimiter boundary) buf = .undecided) :
    ∀ j, j + (delimiter boundary).length + 1 < buf.length →
      ¬ DelimiterLine (delimiter boundary) ((buf ++ more).drop j) := by
  intro j hj hd
  rcases scan_eq_undecided h with hfind | ⟨idx, hfind, hline, hlen⟩
  · exact not_prefix_of_find_none more hfind (by omega) hd.1
  · by_cases hlt : j < idx
    · obtain ⟨-, -, hfirst⟩ :=
        (find_eq_some_iff _ _ _).mp (find_append_of_some more (delimiter_ne_nil boundary) hfind)
      exact hfirst j hlt hd.1
    · -- the buffer ends two bytes behind the delimiter: they are known, and do not end a line
      obtain rfl : j = idx := by omega
      have hend := hd.2
      rw [List.drop_drop, List.drop_append_of_le_length (by omega),
        endsLine_append_iff more (by rw [List.length_drop]; omega)] at hend
      exact hline hend

theorem scan_undecided_end (hcr : 0x0D ∉ boundary) (h : scan (delimiter boundary) buf = .undecided) :
    firstSuffix (DelimiterLine (delimiter boundary)) buf = none := by
  rw [firstSuffix_eq_none_iff]
  intro j _ hd
  have hin := le_of_prefix_drop (delimiter_ne_nil boundary) hd.1
  rcases scan_eq_undecided h with hfind | ⟨idx, hfind, hline, hlen⟩
  · exact (find_eq_none_iff _ _).mp hfind j (by omega) hd.1
  · refine not_line_of_first hcr hfind hline j ?_ hd
    have := four_le_delimiter boundary
    omega

end scan

/-! ### The whole loop -/

/-- Hand pieces to a sink, up to the first one it refuses. -/
def feed (sink : Sink τ) : List Bytes → τ → Except ParseError Unit × τ
  | [], t => (.ok (), t)
  | p :: ps, t =>
    match sink p t with
    | (.ok (), t) => feed sink ps t
    | (.error e, t) => (.error e, t)

theorem feed_append (sink : Sink τ) (ps qs : List Bytes) (t : τ) :
    feed sink (ps ++ qs) t =
      match feed sink ps t with
      | (.ok (), t) => feed sink qs t
      | (.error e, t) => (.error e, t) := by
  induction ps generalizing t with
  | nil => rfl
  | cons p ps ih =>
    rw [List.cons_append, feed, feed]
    rcases sink p t with ⟨_ | ⟨⟩, t'⟩
    · rfl
    · exact ih t'

/-- Raise behind a run that did not raise itself. -/
def orRaise (e : ParseError) : Except ParseError Unit × τ → Except ParseError Unit × τ
  | (.ok (), t) => (.error e, t)
  | (.error e', t) => (.error e', t)

def truncatedValue : ParseError := .valueError "multipart body truncated(value)"

/-- What `stream_value` makes of `rest` if its sink gets the pieces `ps`: they are the bytes before the first
delimiter line and the reader is left behind the delimiter; or there is no such line, the pieces come
from `rest`, and the method raises. -/
inductive Streamed (delim : Bytes) (sink : Sink τ) (rest : Bytes) (t : τ) (ps : List Bytes)
    (out : Except ParseError Unit × BodyReader × τ) : Prop
  | value (i : Nat) (hline : firstSuffix (DelimiterLine delim) rest = some i)
      (hps : ps.flatten = rest.take i) (hout : (out.1, out.2.2) = feed sink ps t)
      (hrest : out.1 = .ok () → out.2.1.rest = rest.drop (i + delim.length))
  | truncated (hnone : firstSuffix (DelimiterLine delim) rest = none)
      (hps : ps.flatten <+: rest) (hout : (out.1, out.2.2) = orRaise truncatedValue (feed sink ps t))

variable {delim rest : Bytes} {sink : Sink τ} {t t' : τ} {k : Nat}

theorem Streamed.cons {ps : List Bytes} {out : Except ParseError Unit × BodyReader × τ} (hk : k ≤ rest.length)
    (hnone : ∀ j < k, ¬ DelimiterLine delim (rest.drop j))
    (hsink : sink (rest.take k) t = (.ok (), t')) (h : Streamed delim sink (rest.drop k) t' ps out) :
    Streamed delim sink rest t (rest.take k :: ps) out := by
  have hskip := firstSuffix_skip (DelimiterLine delim) rest k hk hnone
  have hfeed : feed sink (rest.take k :: ps) t = feed sink ps t' := by rw [feed, hsink]
  cases h with
  | value i hline hps hout hrest =>
    refine .value (i + k) (by rw [hskip, hline]; rfl) ?_ (by rw [hfeed, hout]) (fun hok => ?_)
    · rw [List.flatten_cons, hps, Nat.add_comm, List.take_add]
    · rw [hrest hok, List.drop_drop]
      congr 1
      omega
  | truncated hnone' hps hout =>
    refine .truncated (by rw [hskip, hnone']; rfl) ?_ (by rw [hfeed, hout])
    rw [List.flatten_cons]
    conv_rhs => rw [← List.take_append_drop k rest]
    exact (List.prefix_append_right_inj _).mpr hps

theorem Streamed.refused {e : ParseError} {br : BodyReader} (hk : k ≤ rest.length)
    (hnone : ∀ j < k, ¬ DelimiterLine delim (rest.drop j))
    (hsink : sink (rest.take k) t = (.error e, t')) :
    ∃ ps, Streamed delim sink rest t ps (.error e, br, t') := by
  have hskip := firstSuffix_skip (DelimiterLine delim) rest k hk hnone
  rcases hline : firstSuffix (DelimiterLine delim) (rest.drop k) with _ | i
  · refine ⟨[rest.take k], .truncated (by rw [hskip, hline]; rfl) ?_ (by rw [feed, hsink]; rfl)⟩
    rw [List.flatten_singleton]
    exact List.take_prefix k rest
  · refine ⟨[rest.take k, (rest.drop k).take i], .value (i + k) (by rw [hskip, hline]; rfl) ?_
      (by rw [feed, hsink]) (fun h => by cases h)⟩
    rw [List.flatten_cons, List.flatten_singleton, Nat.add_comm, List.take_add]

/-- What the loop makes of a reader, as the induction over its rounds supposes it. -/
def LoopSpec (boundary : Bytes) (sink : Sink τ) (fuel : Nat) : Prop :=
  ∀ (br : BodyReader) (t : τ), br.buf.length + 2 * br.remaining < fuel →
    ∃ ps, Streamed (delimiter boundary) sink br.rest t ps (streamValueLoop (delimiter boundary) sink fuel br t)

variable {boundary : Bytes} {fuel : Nat}

theorem streamed_fill (br : BodyReader) (t : τ) (ih : LoopSpec boundary sink fuel)
    (hfuel : br.buf.length + 2 * br.remaining ≤ fuel)
    (hend : br.unread = [] → firstSuffix (DelimiterLine (delimiter boundary)) br.rest = none) :
    ∃ ps, Streamed (delimiter boundary) sink br.rest t ps
      (if (fill (br.buf.length + CHUNK) br).buf.length = br.buf.length then
        (.error truncatedValue, fill (br.buf.length + CHUNK) br, t)
      else streamValueLoop (delimiter boundary) sink fuel (fill (br.buf.length + CHUNK) br) t) := by
  split_ifs with hstuck
  · have hrest := unread_of_fill_stuck (by rw [CHUNK]; omega) hstuck
    have hnone := hend (by simpa [BodyReader.rest] using hrest)
    exact ⟨[], .truncated hnone List.nil_prefix rfl⟩
  · obtain ⟨hgrow, hrem⟩ := remaining_of_fill hstuck
    have h := ih (fill (br.buf.length + CHUNK) br) t (by omega)
    rwa [fill_rest] at h

theorem streamed_undecided (br : BodyReader) (t : τ) (hcr : 0x0D ∉ boundary) (ih : LoopSpec boundary sink fuel)
    (hfuel : br.buf.length + 2 * br.remaining ≤ fuel) (hscan : scan (delimiter boundary) br.buf = .undecided) :
    ∃ ps, Streamed (delimiter boundary) sink br.rest t ps
      (streamValueLoop (delimiter boundary) sink (fuel + 1) br t) := by
  have hwhole : br.unread = [] → firstSuffix (DelimiterLine (delimiter boundary)) br.rest = none := by
    intro hempty
    rw [BodyReader.rest, hempty, List.append_nil]
    exact scan_undecided_end hcr hscan
  rw [streamValueLoop, hscan]
  dsimp only
  rw [flushTail]
  by_cases hkeep : (delimiter boundary).length + 1 < br.buf.length
  · rw [if_pos hkeep]
    set k := br.buf.length - ((delimiter boundary).length + 1) with hk
    have hle : k ≤ br.buf.length := Nat.sub_le _ _
    have hnone : ∀ j < k, ¬ DelimiterLine (delimiter boundary) (br.rest.drop j) :=
      fun j hj => scan_undecided br.unread hscan j (by omega)
    rw [← rest_take hle]
    rcases hsink : sink (br.rest.take k) t with ⟨e | ⟨⟩, t'⟩
    · exact Streamed.refused (le_trans hle (buf_length_le_rest br)) hnone hsink
    · have hend : br.unread = [] → firstSuffix (DelimiterLine (delimiter boundary)) (br.rest.drop k) = none := by
        intro hempty
        have hskip := firstSuffix_skip _ _ k (le_trans hle (buf_length_le_rest br)) hnone
        rw [hwhole hempty] at hskip
        exact Option.map_eq_none_iff.mp hskip.symm
      obtain ⟨ps, hps⟩ := streamed_fill { br with buf := br.buf.drop k } t' ih
        (by rw [List.length_drop]; dsimp only; omega) (by rw [rest_drop hle]; exact hend)
      rw [rest_drop hle] at hps
      exact ⟨_, Streamed.cons (le_trans hle (buf_length_le_rest br)) hnone hsink hps⟩
  · rw [if_neg hkeep]
    exact streamed_fill br t ih hfuel hwhole

theorem streamValueLoop_spec (hcr : 0x0D ∉ boundary) (fuel : Nat) : LoopSpec boundary sink fuel := by
  induction fuel with
  | zero => exact fun br t hfuel => absurd hfuel (Nat.not_lt_zero _)
  | succ fuel ih =>
    intro br t hfuel
    rcases hscan : scan (delimiter boundary) br.buf with idx | idx | _
    · -- a delimiter line: the value ends here
      obtain ⟨hin, hline⟩ := scan_line br.unread hscan
      have hps : [br.rest.take idx].flatten = br.rest.take idx := List.flatten_singleton
      refine ⟨[br.rest.take idx], ?_⟩
      rw [streamValueLoop, hscan]
      dsimp only
      rw [← rest_take (by omega)]
      rcases hsink : sink (br.rest.take idx) t with ⟨e | ⟨⟩, t'⟩
      · exact .value idx hline hps (by rw [feed, hsink]) (fun h => by cases h)
      · exact .value idx hline hps (by rw [feed, hsink]; rfl) (fun _ => rest_drop hin)
    · -- content that looks like a delimiter is handed over whole
      obtain ⟨hin, hnone⟩ := scan_content br.unread hcr hscan
      have hlen := le_trans hin (buf_length_le_rest br)
      rw [streamValueLoop, hscan]
      dsimp only
      rw [← rest_take hin]
      rcases hsink : sink (br.rest.take (idx + (delimiter boundary).length)) t with ⟨e | ⟨⟩, t'⟩
      · exact Streamed.refused hlen hnone hsink
      · have hshort := four_le_delimiter boundary
        obtain ⟨ps, hps⟩ := ih { br with buf := br.buf.drop (idx + (delimiter boundary).length) } t'
          (by rw [List.length_drop]; dsimp only; omega)
        rw [rest_drop hin] at hps
        exact ⟨_, Streamed.cons hlen hnone hsink hps⟩
    · exact streamed_undecided br t hcr ih (by omega) hscan

/-- **`stream_value`** hands the bytes before the first delimiter line to its sink, however they arrive. -/
theorem streamValue_spec (hcr : 0x0D ∉ boundary) (sink : Sink τ) (br : BodyReader) (t : τ) :
    ∃ ps, Streamed (delimiter boundary) sink br.rest t ps (streamValue (delimiter boundary) sink br t) :=
  streamValueLoop_spec hcr _ br t (Nat.lt_succ_self _)

end SocketServer.Http
